import CertificateAudit.Certificate.Basic
import CertificateAudit.Proofs.Der.Extent

/-!
Where the fields of a certificate stand. The signed part is a run of elements, and `field?` takes
one of them out by its place, without a look at what the other fields say. Of every certificate
that can be read, the serial number, the issuer's name and the key are such elements.
-/

namespace CertificateAudit

open CertificateAudit.Der

namespace Der

/-- One element stands between the two byte strings. -/
def Passes (bytes rest : List UInt8) : Prop :=
  ∃ item, readOpenItem bytes = some (item, rest)

theorem Passes.of_readContainer {number : Nat} {bytes content rest : List UInt8}
    (done : readContainer number bytes = some (content, rest)) : Passes bytes rest := by
  obtain ⟨item, cut, -⟩ := readContainer_eq_some_iff.mp done
  exact ⟨item, readOpenItem_of_readItem cut⟩

/-- The element at a place in a run of elements: all its bytes, and what it is cut out as. -/
def elementAt : (place : Nat) → List UInt8 → Option (List UInt8 × Item)
  | 0, bytes => do
      let (item, rest) ← readOpenItem bytes
      pure (bytes.take (bytes.length - rest.length), item)
  | place + 1, bytes => do
      let (_, rest) ← readOpenItem bytes
      elementAt place rest

theorem elementAt_zero {item : Item} {bytes rest : List UInt8}
    (cut : readOpenItem bytes = some (item, rest)) :
    elementAt 0 bytes = some (bytes.take (bytes.length - rest.length), item) := by
  simp [elementAt, cut]

theorem Passes.elementAt_succ {bytes rest : List UInt8} (passes : Passes bytes rest)
    (place : Nat) : elementAt (place + 1) bytes = elementAt place rest := by
  obtain ⟨item, cut⟩ := passes
  simp [elementAt, cut]

end Der

/-! Names. -/

namespace Name

theorem progresses_readPart : Progresses readPart := by
  intro bytes attributes rest done
  obtain ⟨⟨content, behind⟩, cut, inside⟩ := Option.bind_eq_some_iff.mp done
  obtain ⟨-, header, nonempty, spelled⟩ := readContainer_extent cut
  have positive := List.length_pos_iff.mpr nonempty
  dsimp only at inside
  split at inside
  next => cases inside
  next =>
    cases inside
    rw [spelled]
    simp only [List.length_append]
    omega

/-- Whether every part of a name can be read, given the content of the name. -/
def IsReadable (content : List UInt8) : Prop :=
  (readAll readPart content.length content).isSome

instance (content : List UInt8) : Decidable (IsReadable content) :=
  inferInstanceAs (Decidable (_ = true))

/-- The bytes of a name are the front of its element. They end where the first part begins that
cannot be read, so they are the whole element exactly if there is none. -/
theorem read_extent {name : Name} {bytes rest : List UInt8}
    (done : read bytes = some (name, rest)) :
    ∃ element item, readOpenItem bytes = some (item, rest) ∧
      bytes.take (bytes.length - rest.length) = element ∧ name.raw <+: element ∧
      (name.raw = element ↔ IsReadable item.content) := by
  obtain ⟨⟨content, behind⟩, container, done⟩ := Option.bind_eq_some_iff.mp done
  cases done
  obtain ⟨item, cut, -, rfl⟩ := readContainer_eq_some_iff.mp container
  obtain ⟨-, header, -, spelled⟩ := readItem_extent cut
  refine ⟨_, item, readOpenItem_of_readItem cut, rfl, ?_, ?_⟩
  · exact List.take_prefix_take_left (Nat.sub_le _ _)
  · have short := progresses_readPart.length_readMany_le item.content.length item.content
    have total := congrArg List.length spelled
    simp only [List.length_append] at total
    rw [IsReadable, ← progresses_readPart.readMany_eq_nil_iff]
    constructor
    · intro same
      have counted := congrArg List.length same
      rw [List.length_take, List.length_take] at counted
      apply List.eq_nil_of_length_eq_zero
      omega
    · intro nothing
      simp only [nothing, List.length_nil, Nat.sub_zero]

end Name

namespace Certificate

theorem length_of_skipVersion {body fields : List UInt8} (done : skipVersion body = some fields) :
    fields.length ≤ body.length := by
  rw [skipVersion] at done
  split at done
  case isTrue =>
    cases done
    exact Nat.le_refl _
  case isFalse =>
    obtain ⟨⟨item, rest⟩, cut, skipped⟩ := Option.bind_eq_some_iff.mp done
    obtain ⟨-, header, -, spelled⟩ := readItem_extent cut
    dsimp only at skipped
    split at skipped
    case isTrue =>
      cases skipped
      exact Nat.le_refl _
    case isFalse =>
      split at skipped
      case isTrue =>
        cases skipped
        rw [spelled, List.length_append]
        exact Nat.le_add_left _ _
      case isFalse => cases skipped

theorem passes_of_skipAlgorithm {bytes rest : List UInt8}
    (done : skipAlgorithm bytes = some rest) : Passes bytes rest := by
  obtain ⟨⟨content, behind⟩, container, done⟩ := Option.bind_eq_some_iff.mp done
  obtain ⟨objectId, -, done⟩ := Option.bind_eq_some_iff.mp done
  cases done
  exact .of_readContainer container

theorem passes_of_skipValidity {bytes rest : List UInt8}
    (done : skipValidity bytes = some rest) : Passes bytes rest := by
  obtain ⟨⟨content, behind⟩, container, done⟩ := Option.bind_eq_some_iff.mp done
  obtain ⟨afterStart, -, done⟩ := Option.bind_eq_some_iff.mp done
  obtain ⟨afterEnd, -, done⟩ := Option.bind_eq_some_iff.mp done
  cases done
  exact .of_readContainer container

theorem passes_of_readName {name : Name} {bytes rest : List UInt8}
    (done : Name.read bytes = some (name, rest)) : Passes bytes rest := by
  obtain ⟨element, item, cut, -⟩ := Name.read_extent done
  exact ⟨item, cut⟩

theorem readBitString_eq_some {bytes bits rest : List UInt8}
    (done : readBitString bytes = some (bits, rest)) :
    ∃ item unusedBits, readOpenItem bytes = some (item, rest) ∧
      item.content = unusedBits :: bits := by
  obtain ⟨⟨item, behind⟩, cut, done⟩ := Option.bind_eq_some_iff.mp done
  dsimp only at done
  split at done
  case isTrue isBitString =>
    cases done
    cases spelled : item.content with
    | nil =>
        rw [spelled] at isBitString
        cases isBitString.2.2
    | cons unusedBits bits => exact ⟨item, unusedBits, readOpenItem_of_readItem cut, spelled⟩
  case isFalse => cases done

/-- What stands behind the version in the signed part. -/
def fields? (der : List UInt8) : Option (List UInt8) := do
  let (content, _) ← readContainer 16 der
  let (body, _) ← readContainer 16 content
  skipVersion body

/-- The field at a place of the signed part, counted from the serial number on. -/
def field? (place : Nat) (der : List UInt8) : Option (List UInt8 × Item) := do
  elementAt place (← fields? der)

/-- The content of the serial number. -/
def serialField? (der : List UInt8) : Option (List UInt8) :=
  (field? 0 der).map fun (_, item) => item.content

/-- The issuer's name: all its bytes, and what it is cut out as. -/
def issuerField? (der : List UInt8) : Option (List UInt8 × Item) :=
  field? 2 der

/-- The content of the bit string with the key, which stands behind an algorithm. -/
def keyField? (der : List UInt8) : Option (List UInt8) := do
  let (_, info) ← field? 5 der
  let (_, bits) ← elementAt 1 info.content
  pure bits.content

/-- How the fields follow each other up to the key. -/
inductive IsLaidOut (fields : List UInt8) (certificate : Certificate) : Prop where
  | intro {serial : Item} {afterSerial afterAlgorithm afterIssuer afterValidity afterSubject
        afterKey : List UInt8}
      (serialRead : readOpenItem fields = some (serial, afterSerial))
      (sameSerial : serial.content = certificate.serial)
      (algorithm : Passes afterSerial afterAlgorithm)
      (issuer : Name.read afterAlgorithm = some (certificate.issuer, afterIssuer))
      (validity : Passes afterIssuer afterValidity)
      (subject : Passes afterValidity afterSubject)
      (key : readPublicKey afterSubject = some (certificate.publicKey, afterKey))

theorem isLaidOut_of_ofDer? {der : List UInt8} {certificate : Certificate}
    (accepted : ofDer? der = some certificate) :
    ∃ fields, fields? der = some fields ∧ fields.length < lengthBound ∧
      IsLaidOut fields certificate := by
  obtain ⟨⟨content, behind⟩, outer, accepted⟩ := Option.bind_eq_some_iff.mp accepted
  obtain ⟨⟨body, behind⟩, inner, accepted⟩ := Option.bind_eq_some_iff.mp accepted
  obtain ⟨read, body_read, accepted⟩ := Option.bind_eq_some_iff.mp accepted
  obtain ⟨algorithm, -, accepted⟩ := Option.bind_eq_some_iff.mp accepted
  obtain ⟨signature, -, accepted⟩ := Option.bind_eq_some_iff.mp accepted
  cases accepted
  obtain ⟨fields, version, rest⟩ := Option.bind_eq_some_iff.mp body_read
  obtain ⟨⟨serial, afterSerial⟩, serialRead, rest⟩ := Option.bind_eq_some_iff.mp rest
  dsimp only at inner rest
  split at rest
  case isTrue => cases rest
  case isFalse =>
    obtain ⟨afterAlgorithm, algorithm, rest⟩ := Option.bind_eq_some_iff.mp rest
    obtain ⟨⟨issuer, afterIssuer⟩, issuerRead, rest⟩ := Option.bind_eq_some_iff.mp rest
    obtain ⟨afterValidity, validity, rest⟩ := Option.bind_eq_some_iff.mp rest
    obtain ⟨⟨subject, afterSubject⟩, subjectRead, rest⟩ := Option.bind_eq_some_iff.mp rest
    obtain ⟨⟨publicKey, afterKey⟩, keyRead, rest⟩ := Option.bind_eq_some_iff.mp rest
    obtain ⟨_, -, rest⟩ := Option.bind_eq_some_iff.mp rest
    obtain ⟨_, -, rest⟩ := Option.bind_eq_some_iff.mp rest
    obtain ⟨extensions, -, rest⟩ := Option.bind_eq_some_iff.mp rest
    cases rest
    refine ⟨fields, ?_, ?_, ?_⟩
    · simp [fields?, outer, inner, version]
    · exact Nat.lt_of_le_of_lt (length_of_skipVersion version) (readContainer_extent inner).1
    · exact .intro serialRead rfl (passes_of_skipAlgorithm algorithm) issuerRead
        (passes_of_skipValidity validity) (passes_of_readName subjectRead) keyRead

section

variable {der : List UInt8} {certificate : Certificate}

theorem serialField?_eq (accepted : ofDer? der = some certificate) :
    serialField? der = some certificate.serial := by
  obtain ⟨fields, split, -, laidOut⟩ := isLaidOut_of_ofDer? accepted
  cases laidOut with
  | intro serialRead sameSerial =>
      simp [serialField?, field?, split, elementAt_zero serialRead, sameSerial]

theorem length_serial_lt (accepted : ofDer? der = some certificate) :
    certificate.serial.length < lengthBound := by
  obtain ⟨fields, -, bounded, laidOut⟩ := isLaidOut_of_ofDer? accepted
  cases laidOut with
  | intro serialRead sameSerial =>
      rw [← sameSerial]
      exact Nat.lt_of_le_of_lt (length_of_readOpenItem serialRead) bounded

theorem issuerField?_eq (accepted : ofDer? der = some certificate) :
    ∃ element item, issuerField? der = some (element, item) ∧
      certificate.issuer.raw <+: element ∧
      (certificate.issuer.raw = element ↔ Name.IsReadable item.content) := by
  obtain ⟨fields, split, -, laidOut⟩ := isLaidOut_of_ofDer? accepted
  cases laidOut with
  | intro serialRead _ algorithm issuer =>
      obtain ⟨element, item, cut, span, front, whole⟩ := Name.read_extent issuer
      refine ⟨element, item, ?_, front, whole⟩
      rw [← span, ← elementAt_zero cut, ← algorithm.elementAt_succ,
        ← Passes.elementAt_succ ⟨_, serialRead⟩]
      simp [issuerField?, field?, split]

theorem keyField?_eq (accepted : ofDer? der = some certificate) :
    ∃ unusedBits, keyField? der = some (unusedBits :: certificate.publicKey) := by
  obtain ⟨fields, split, -, laidOut⟩ := isLaidOut_of_ofDer? accepted
  cases laidOut with
  | intro serialRead _ algorithm issuer validity subject key =>
      obtain ⟨⟨content, behind⟩, container, key⟩ := Option.bind_eq_some_iff.mp key
      obtain ⟨afterAlgorithm, inner, key⟩ := Option.bind_eq_some_iff.mp key
      obtain ⟨⟨bits, after⟩, bitString, key⟩ := Option.bind_eq_some_iff.mp key
      cases key
      obtain ⟨info, cut, -, rfl⟩ := readContainer_eq_some_iff.mp container
      obtain ⟨item, unusedBits, found, spelled⟩ := readBitString_eq_some bitString
      have place := Passes.elementAt_succ ⟨_, serialRead⟩ 4
      rw [algorithm.elementAt_succ, (passes_of_readName issuer).elementAt_succ,
        validity.elementAt_succ, subject.elementAt_succ,
        elementAt_zero (readOpenItem_of_readItem cut)] at place
      have second := (passes_of_skipAlgorithm inner).elementAt_succ 0
      rw [elementAt_zero found] at second
      exact ⟨unusedBits, by simp [keyField?, field?, split, place, second, spelled]⟩

end

end Certificate

end CertificateAudit
