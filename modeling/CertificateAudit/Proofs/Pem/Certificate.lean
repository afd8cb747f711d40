import CertificateAudit.Pem.Certificate
import CertificateAudit.Proofs.Pem.Base64
import CertificateAudit.Proofs.Pem.Block
import CertificateAudit.Proofs.Text.Ascii

/-!
Certificates written as PEM can be read again. `certificateText_eq` gives the text line by line,
and `saved_certificate_reloads` says that the bytes come back from it, and with them the
certificate.
-/

namespace CertificateAudit.Text

/-- Of a text that neither starts nor ends with a blank nothing is trimmed, and all blanks behind
it are. -/
theorem trim_append {text blanks : List Char} (filled : text ≠ [])
    (first : ∀ c ∈ text.head?, isBlank c = false) (last : ∀ c ∈ text.getLast?, isBlank c = false)
    (isBlanks : ∀ c ∈ blanks, isBlank c = true) : trim (text ++ blanks) = text := by
  have started : trimStart (text ++ blanks) = text ++ blanks := by
    cases text with
    | nil => exact absurd rfl filled
    | cons c text =>
        have notBlank : isBlank c = false := first c rfl
        simp [trimStart, notBlank]
  have dropped : ∀ c ∈ blanks.reverse, isBlank c = true := by
    intro c membership
    exact isBlanks c (List.mem_reverse.mp membership)
  rw [trim, started, dropEndWhile, List.reverse_append, List.dropWhile_append_of_pos dropped]
  rcases List.eq_nil_or_concat text with rfl | ⟨front, c, rfl⟩
  · exact absurd rfl filled
  · have notBlank : isBlank c = false := last c (by simp)
    simp [notBlank]

end CertificateAudit.Text

namespace CertificateAudit.Pem

open CertificateAudit.Text

def beginLine : List Char := "-----BEGIN CERTIFICATE-----".toList

def endLine : List Char := "-----END CERTIFICATE-----".toList

/-- The lines of digits of a certificate. -/
def digitLines (der : List UInt8) : List (List Char) :=
  chunksOfSucc 63 (Base64.encode der)

theorem beginLine_eq : beginLine = beginMarker ++ (certificateLabel ++ dashes) := by decide

theorem endLine_eq : endLine = endMarker ++ (certificateLabel ++ dashes) := by decide

theorem certificateText_eq (der : List UInt8) :
    certificateText der = unlines (beginLine :: digitLines der ++ [endLine]) := by
  rw [beginLine_eq, endLine_eq]
  simp only [certificateText, unlines, digitLines, List.flatMap_append, List.flatMap_cons,
    List.flatMap_nil, List.append_assoc, List.cons_append, List.nil_append, List.append_nil]

theorem isSymbol_of_mem_digitLines {der : List UInt8} {line : List Char} {c : Char}
    (isLine : line ∈ digitLines der) (membership : c ∈ line) : Base64.IsSymbol c := by
  have isDigit : c ∈ (digitLines der).flatten := List.mem_flatten.mpr ⟨line, isLine, membership⟩
  rw [digitLines, flatten_chunksOfSucc] at isDigit
  exact Base64.isSymbol_of_mem_encode isDigit

/-- A line of digits holds nothing that has a meaning in a block. -/
theorem digitLines_proper {der : List UInt8} :
    ∀ line ∈ digitLines der, line ≠ [] ∧ '\n' ∉ line ∧ '\r' ∉ line := by
  intro line isLine
  have symbol : ∀ c ∈ line, isBlank c = false := fun c membership =>
    (isSymbol_of_mem_digitLines isLine membership).plain.1
  refine ⟨?_, ?_, ?_⟩
  · rintro rfl
    have filled := (length_of_mem_chunksOfSucc isLine).1
    cases filled
  · intro membership
    cases symbol _ membership
  · intro membership
    cases symbol _ membership

theorem mem_unlines_digitLines {der : List UInt8} {c : Char}
    (membership : c ∈ unlines (digitLines der)) : Base64.IsSymbol c ∨ c = '\n' := by
  obtain ⟨line, isLine, within⟩ := List.mem_flatMap.mp membership
  rcases List.mem_append.mp within with inside | feed
  · exact .inl (isSymbol_of_mem_digitLines isLine inside)
  · exact .inr (List.mem_singleton.mp feed)

theorem dash_not_mem_unlines_digitLines (der : List UInt8) :
    '-' ∉ unlines (digitLines der) := by
  intro membership
  rcases mem_unlines_digitLines membership with symbol | feed
  · exact symbol.plain.2 rfl
  · cases feed

theorem isBlank_of_isGap {c : Char} (gap : isGap c = true) : isBlank c = true := by
  simp only [isGap, Bool.or_eq_true, beq_iff_eq] at gap
  rcases gap with ((rfl | rfl) | rfl) | rfl <;> decide

theorem isGap_head?_digitLines (der : List UInt8) :
    ∀ c ∈ (unlines (digitLines der)).head?, isGap c = false := by
  intro c isFirst
  cases lines : digitLines der with
  | nil =>
      rw [lines] at isFirst
      cases isFirst
  | cons line others =>
      have isLine : line ∈ digitLines der := by simp [lines]
      rw [lines] at isFirst
      cases line with
      | nil => exact absurd rfl (digitLines_proper _ isLine).1
      | cons d line =>
          cases isFirst
          have notBlank := (isSymbol_of_mem_digitLines isLine List.mem_cons_self).plain.1
          cases gap : isGap c with
          | false => rfl
          | true =>
              rw [isBlank_of_isGap gap] at notBlank
              cases notBlank

theorem filter_unlines_digitLines (der : List UInt8) :
    (unlines (digitLines der)).filter (fun c => !isBlank c) = Base64.encode der := by
  have each : ∀ line ∈ digitLines der,
      (line ++ ['\n']).filter (fun c => !isBlank c) = line := by
    intro line isLine
    have symbols : ∀ c ∈ line, (!isBlank c) = true := by
      intro c membership
      rw [(isSymbol_of_mem_digitLines isLine membership).plain.1]
      rfl
    have feed : ['\n'].filter (fun c => !isBlank c) = [] := by decide
    rw [List.filter_append, List.filter_eq_self.mpr symbols, feed, List.append_nil]
  rw [unlines, List.filter_flatMap, List.flatMap_def, List.map_congr_left each, List.map_id']
  exact flatten_chunksOfSucc 63 (Base64.encode der)

/-- The block of a certificate is read whatever stands behind it. -/
theorem read_block (der : List UInt8) (behind : List Char) :
    Block.read (unlines (beginLine :: digitLines der) ++ (endLine ++ behind)) =
      .ok ⟨certificateLabel, der⟩ := by
  have noDash : '-' ∉ certificateLabel := by decide
  have gaps : ∀ c ∈ ['\n'], isGap c = true := List.forall_mem_singleton.mpr rfl
  have framed := @frame?_append [] _ _ _ _ List.not_mem_nil noDash gaps
    (isGap_head?_digitLines der) (dash_not_mem_unlines_digitLines der) noDash behind
  have whole : unlines (beginLine :: digitLines der) ++ (endLine ++ behind) =
      [] ++ (beginMarker ++ (certificateLabel ++ (dashes ++ (['\n'] ++ (unlines (digitLines der) ++
        (endMarker ++ (certificateLabel ++ (dashes ++ behind)))))))) := by
    rw [beginLine_eq, endLine_eq]
    simp [unlines]
  have named : certificateLabel.isEmpty = false := by decide
  simp only [Block.read, whole, framed, named, splitHeaders_unlines digitLines_proper,
    filter_unlines_digitLines, Base64.decode?_encode]
  rfl

theorem trim_certificateText (der : List UInt8) :
    trim (certificateText der) = unlines (beginLine :: digitLines der) ++ endLine := by
  have split : certificateText der =
      (unlines (beginLine :: digitLines der) ++ endLine) ++ ['\n'] := by
    rw [certificateText_eq]
    simp [unlines]
  have ends : endLine.getLast? = some '-' := by decide
  rw [split]
  apply trim_append
  · simp [unlines]
  · intro c isFirst
    cases isFirst
    decide
  · intro c isLast
    rw [List.getLast?_append, ends] at isLast
    cases isLast
    decide
  · exact List.forall_mem_singleton.mpr rfl

/-- A text is read as a certificate only if its bytes are one. -/
theorem readCertificate_eq_ok {text : String} {der : List UInt8} {subject : String}
    (read : readCertificate text = .ok (der, subject)) :
    ∃ certificate, Certificate.ofDer? der = some certificate ∧
      certificate.subject.text = subject := by
  unfold readCertificate at read
  split at read
  case h_1 => cases read
  case h_2 block _ =>
    split at read
    case isTrue => cases read
    case isFalse =>
      split at read
      case h_1 => cases read
      case h_2 certificate decoded =>
        cases read
        exact ⟨certificate, decoded, rfl⟩

theorem readCertificate_writeCertificate {der : List UInt8} {certificate : Certificate}
    (decoded : Certificate.ofDer? der = some certificate) :
    readCertificate (writeCertificate der) = .ok (der, certificate.subject.text) := by
  have framed := read_block der []
  rw [List.append_nil] at framed
  simp only [readCertificate, writeCertificate, String.toList_ofList, trim_certificateText,
    framed, decoded]
  rfl

/-- The bytes of a certificate are read back from its text, which has them in lines of 64 digits
of which only the last may be shorter. So a certificate that was read from any text is read from
its own. -/
theorem saved_certificate_reloads (der : List UInt8) :
    Block.read (certificateText der) = .ok ⟨certificateLabel, der⟩ ∧
    (∃ body : List (List Char),
      certificateText der = unlines (beginLine :: body ++ [endLine]) ∧
      body.flatten = Base64.encode der ∧ (body = [] ↔ der = []) ∧
      (∀ line ∈ body, (∀ c ∈ line, Base64.IsSymbol c) ∧
        1 ≤ line.length ∧ line.length ≤ 64) ∧
      ∀ line ∈ body.dropLast, line.length = 64) ∧
    ∀ text subject, readCertificate text = .ok (der, subject) →
      readCertificate (writeCertificate der) = .ok (der, subject) := by
  refine ⟨?_, ⟨digitLines der, certificateText_eq der, ?_, ?_, ?_, ?_⟩, ?_⟩
  · have split : certificateText der =
        unlines (beginLine :: digitLines der) ++ (endLine ++ ['\n']) := by
      rw [certificateText_eq]
      simp [unlines]
    rw [split]
    exact read_block der ['\n']
  · exact flatten_chunksOfSucc 63 (Base64.encode der)
  · rw [digitLines, chunksOfSucc_eq_nil_iff, Base64.encode_eq_nil_iff]
  · intro line isLine
    refine ⟨?_, length_of_mem_chunksOfSucc isLine⟩
    intro c membership
    exact isSymbol_of_mem_digitLines isLine membership
  · intro line isLine
    exact length_of_mem_dropLast_chunksOfSucc isLine
  · intro text subject read
    obtain ⟨certificate, decoded, rfl⟩ := readCertificate_eq_ok read
    exact readCertificate_writeCertificate decoded

/-- A certificate without extensions, whose subject is `CN=a`. -/
def namedCertificate : List UInt8 :=
  [0x30, 0x45, 0x30, 0x3c, 0x02, 0x01, 0x07, 0x30, 0x02, 0x06, 0x00, 0x30, 0x00, 0x30, 0x1a, 0x17,
    0x0b, 0x32, 0x34, 0x30, 0x31, 0x30, 0x31, 0x30, 0x30, 0x30, 0x30, 0x5a, 0x17, 0x0b, 0x32,
    0x34, 0x30, 0x31, 0x30, 0x31, 0x30, 0x30, 0x30, 0x30, 0x5a, 0x30, 0x0c, 0x31, 0x0a, 0x30,
    0x08, 0x06, 0x03, 0x55, 0x04, 0x03, 0x0c, 0x01, 0x61, 0x30, 0x07, 0x30, 0x02, 0x06, 0x00,
    0x03, 0x01, 0x00, 0x30, 0x02, 0x06, 0x00, 0x03, 0x01, 0x00]

/-- The certificate in lines of 40 digits, with other line ends and with text around it. -/
def wrappedText : String :=
  "a:\r\n-----BEGIN CERTIFICATE-----\r\nMEUwPAIBBzACBgAwADAaFwsyNDAxMDEwMDAwWhcL\r\n" ++
    "MjQwMTAxMDAwMFowDDEKMAgGA1UEAwwBYTAHMAIG\r\nAAMBADACBgADAQA=\r\n" ++
    "-----END CERTIFICATE-----\r\n(end)"

theorem saved_certificate_reloads_wrapped :
    readCertificate wrappedText = .ok (namedCertificate, "CN=a") ∧
      readCertificate (writeCertificate namedCertificate) = .ok (namedCertificate, "CN=a") := by
  have read : readCertificate wrappedText = .ok (namedCertificate, "CN=a") := by
    have evaluated :
        (readCertificate wrappedText).toOption = some (namedCertificate, "CN=a") := by
      decide +kernel
    cases result : readCertificate wrappedText with
    | error error =>
        rw [result] at evaluated
        cases evaluated
    | ok pair =>
        rw [result] at evaluated
        rw [Option.some.inj evaluated]
  exact ⟨read, (saved_certificate_reloads namedCertificate).2.2 wrappedText "CN=a" read⟩

end CertificateAudit.Pem
