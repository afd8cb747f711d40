import CertificateAudit.Proofs.Certificate.Fields
import CertificateAudit.Proofs.Der.ObjectId

/-!
Extensions as they are written, and what a certificate is read with. Whatever can be read up to the
place of the extensions (`Certificate.extensionPart?`) is a certificate with exactly the extensions
that are written there (`Certificate.exists_of_hasExtensions`). A certificate written from its
fields is one example (`Outline.hasExtensions_encode`).
-/

namespace CertificateAudit

open CertificateAudit.Der

/-- An extension as it is written: its identifier, whether it is critical, if that is said, and its
value. -/
structure ExtensionForm where
  id : Oid
  critical : Option UInt8
  value : List UInt8

namespace ExtensionForm

def content (form : ExtensionForm) : List UInt8 :=
  Der.encode 0x06 form.id.content ++
    ((form.critical.toList.flatMap fun b => Der.encode 0x01 [b]) ++ Der.encode 0x04 form.value)

def encode (form : ExtensionForm) : List UInt8 :=
  Der.encode 0x30 form.content

/-- The extension that is to be read. -/
def extension (form : ExtensionForm) : Extension where
  objectId := form.id.content
  value := form.value

/-- The extensions are written in the place for them, or there are none. -/
inductive Spells : List ExtensionForm → List UInt8 → Prop
  | none : Spells [] []
  | block (forms : List ExtensionForm) :
      Spells forms (Der.encode 0xa3 (Der.encode 0x30 (forms.flatMap encode)))

end ExtensionForm

namespace Der

theorem readContainer_sequence (content rest : List UInt8)
    (bounded : content.length < lengthBound) :
    readContainer 16 (encode 0x30 content ++ rest) = some (content, rest) := by
  simp [readContainer, readItem_encode (show IsWholeTag 0x30 by decide) bounded, Item.of]

theorem readPrimitive_objectId (content rest : List UInt8)
    (bounded : content.length < lengthBound) :
    readPrimitive (encode 0x06 content ++ rest) = some (content, rest) := by
  have plain : isConstructed 0x06 = false := by decide
  simp [readPrimitive, readItem_encode (show IsWholeTag 0x06 by decide) bounded, Item.of, plain]

end Der

namespace ExtensionForm

theorem skipCritical_critical (critical : Option UInt8) {value : List UInt8}
    (bounded : value.length < lengthBound) :
    Certificate.skipCritical ((critical.toList.flatMap fun b => Der.encode 0x01 [b]) ++
      Der.encode 0x04 value) = Der.encode 0x04 value := by
  cases critical with
  | none =>
      have read := readOpenItem_encode (show IsWholeTag 0x04 by decide) bounded []
      rw [List.append_nil] at read
      simp [Certificate.skipCritical, read, Item.of]
  | some b =>
      have single : [b].length < lengthBound := by
        simp [lengthBound]
      have read := readOpenItem_encode (show IsWholeTag 0x01 by decide) single
        (Der.encode 0x04 value)
      have plain : isConstructed 0x01 = false := by decide
      simp [Certificate.skipCritical, read, Item.of, plain]

theorem readExtension_encode (form : ExtensionForm) (bounded : form.encode.length < lengthBound)
    (rest : List UInt8) :
    Certificate.readExtension (form.encode ++ rest) = some (form.extension, rest) := by
  have content : form.content.length < lengthBound :=
    Nat.lt_trans (length_lt_encode 0x30 form.content) bounded
  have idLength := length_lt_encode 0x06 form.id.content
  have valueLength := length_lt_encode 0x04 form.value
  have total : form.content.length = (Der.encode 0x06 form.id.content).length +
      ((form.critical.toList.flatMap fun b => Der.encode 0x01 [b]).length +
        (Der.encode 0x04 form.value).length) := by
    rw [ExtensionForm.content, List.length_append, List.length_append]
  have container := readContainer_sequence form.content rest content
  have id := readPrimitive_objectId form.id.content
    ((form.critical.toList.flatMap fun b => Der.encode 0x01 [b]) ++ Der.encode 0x04 form.value)
    (by omega)
  have valueBound : form.value.length < lengthBound := by omega
  have value := readItem_encode (show IsWholeTag 0x04 by decide) valueBound []
  have plain : isConstructed 0x04 = false := by decide
  rw [List.append_nil] at value
  rw [← ExtensionForm.content] at id
  simp only [Certificate.readExtension, encode, container, id, Option.bind_eq_bind,
    Option.bind_some, skipCritical_critical form.critical valueBound, value]
  simp [Item.of, plain, extension]

theorem Spells.length_value_lt {forms : List ExtensionForm} {part : List UInt8}
    (spells : Spells forms part) {form : ExtensionForm} (membership : form ∈ forms) :
    form.value.length < part.length := by
  cases spells with
  | none => cases membership
  | block forms =>
      calc form.value.length
        _ < (Der.encode 0x04 form.value).length := length_lt_encode _ _
        _ ≤ form.content.length := by
            rw [ExtensionForm.content, List.length_append, List.length_append]
            omega
        _ < form.encode.length := length_lt_encode _ _
        _ ≤ (forms.flatMap encode).length := length_le_flatMap membership
        _ < (Der.encode 0x30 (forms.flatMap encode)).length := length_lt_encode _ _
        _ < _ := length_lt_encode _ _

theorem readExtensions_of_spells {forms : List ExtensionForm} {part : List UInt8}
    (spells : Spells forms part) (bounded : part.length < lengthBound) :
    Certificate.readExtensions part = some (forms.map extension) := by
  cases spells with
  | none => rfl
  | block forms =>
      have outerLength := length_lt_encode 0xa3 (Der.encode 0x30 (forms.flatMap encode))
      have innerLength := length_lt_encode 0x30 (forms.flatMap encode)
      have header := readHeader_encode (show IsWholeTag 0xa3 by decide)
        (Nat.lt_trans outerLength bounded) []
      have container := readContainer_sequence (forms.flatMap encode) [] (by omega)
      have all : readAll Certificate.readExtension (forms.flatMap encode).length
          (forms.flatMap encode) = some (forms.map extension) := by
        refine readAll_flatMap ?_ ?_ (Nat.le_refl _)
        · intro form membership rest
          have shorter : form.encode.length ≤ (forms.flatMap encode).length :=
            length_le_flatMap membership
          exact form.readExtension_encode (by omega) rest
        · intro form _ empty
          cases empty
      simp only [List.append_nil] at header container
      have given : (Der.encode 0xa3 (Der.encode 0x30 (forms.flatMap encode))).isEmpty = false := rfl
      have tagged : (Item.of 0xa3 (Der.encode 0x30 (forms.flatMap encode))).tag.number = 3 := rfl
      simp only [Certificate.readExtensions, given, Bool.false_eq_true, if_false, header,
        Option.bind_eq_bind, Option.bind_some, tagged, Option.isSome_some, and_self, if_true,
        container, List.isEmpty_nil, all]

end ExtensionForm

theorem Der.Passes.length_le {bytes rest : List UInt8} (passes : Passes bytes rest) :
    rest.length ≤ bytes.length := by
  obtain ⟨item, cut⟩ := passes
  exact readOpenItem_length_le cut

namespace Certificate

/-- What stands in the place of the extensions, in bytes that up to there are read as a
certificate. -/
def extensionPart? (der : List UInt8) : Option (List UInt8) := do
  let (content, _) ← readContainer 16 der
  let (body, tail) ← readContainer 16 content
  let _ ← readBitString (← skipAlgorithm tail)
  let rest ← skipVersion body
  let (serial, rest) ← readOpenItem rest
  if serial.tag.number ≠ 2 then none
  else
    let rest ← skipAlgorithm rest
    let (_, rest) ← Name.read rest
    let rest ← skipValidity rest
    let (_, rest) ← Name.read rest
    let (_, rest) ← readPublicKey rest
    let rest ← skipUniqueId 1 rest
    skipUniqueId 2 rest

/-- The bytes are a certificate with these extensions. -/
def HasExtensions (der : List UInt8) (forms : List ExtensionForm) : Prop :=
  ∃ part, extensionPart? der = some part ∧ ExtensionForm.Spells forms part

theorem length_of_skipUniqueId {number : Nat} {bytes rest : List UInt8}
    (done : skipUniqueId number bytes = some rest) : rest.length ≤ bytes.length := by
  rw [skipUniqueId] at done
  split at done
  case isTrue =>
    cases done
    exact Nat.le_refl _
  case isFalse =>
    obtain ⟨⟨item, behind⟩, cut, done⟩ := Option.bind_eq_some_iff.mp done
    dsimp only at done
    split at done
    case isTrue =>
      cases done
      exact Nat.le_refl _
    case isFalse =>
      split at done
      case isTrue =>
        cases done
        exact readOpenItem_length_le (readOpenItem_of_readItem cut)
      case isFalse => cases done

theorem passes_of_readPublicKey {bytes key rest : List UInt8}
    (done : readPublicKey bytes = some (key, rest)) : Passes bytes rest := by
  obtain ⟨⟨content, behind⟩, container, done⟩ := Option.bind_eq_some_iff.mp done
  obtain ⟨afterAlgorithm, -, done⟩ := Option.bind_eq_some_iff.mp done
  obtain ⟨⟨bits, after⟩, -, done⟩ := Option.bind_eq_some_iff.mp done
  cases done
  exact .of_readContainer container

/-- What is read up to the extensions is a certificate if these can be read, and has them. -/
theorem exists_of_extensionPart? {der part : List UInt8}
    (placed : extensionPart? der = some part) :
    part.length < lengthBound ∧
      ∀ extensions, readExtensions part = some extensions →
        ∃ certificate, ofDer? der = some certificate ∧ certificate.extensions = extensions := by
  obtain ⟨⟨content, behind⟩, outer, placed⟩ := Option.bind_eq_some_iff.mp placed
  obtain ⟨⟨body, tail⟩, inner, placed⟩ := Option.bind_eq_some_iff.mp placed
  obtain ⟨signatureBytes, algorithm, placed⟩ := Option.bind_eq_some_iff.mp placed
  obtain ⟨signature, signed, placed⟩ := Option.bind_eq_some_iff.mp placed
  obtain ⟨fields, version, placed⟩ := Option.bind_eq_some_iff.mp placed
  obtain ⟨⟨serial, afterSerial⟩, serialRead, placed⟩ := Option.bind_eq_some_iff.mp placed
  dsimp only at inner algorithm version placed
  split at placed
  case isTrue => cases placed
  case isFalse isSerial =>
    obtain ⟨afterAlgorithm, bodyAlgorithm, placed⟩ := Option.bind_eq_some_iff.mp placed
    obtain ⟨⟨issuer, afterIssuer⟩, issuerRead, placed⟩ := Option.bind_eq_some_iff.mp placed
    obtain ⟨afterValidity, validity, placed⟩ := Option.bind_eq_some_iff.mp placed
    obtain ⟨⟨subject, afterSubject⟩, subjectRead, placed⟩ := Option.bind_eq_some_iff.mp placed
    obtain ⟨⟨publicKey, afterKey⟩, keyRead, placed⟩ := Option.bind_eq_some_iff.mp placed
    obtain ⟨afterIssuerId, issuerId, subjectId⟩ := Option.bind_eq_some_iff.mp placed
    dsimp only at validity keyRead issuerId
    refine ⟨?_, ?_⟩
    · calc part.length
        _ ≤ afterIssuerId.length := length_of_skipUniqueId subjectId
        _ ≤ afterKey.length := length_of_skipUniqueId issuerId
        _ ≤ afterSubject.length := (passes_of_readPublicKey keyRead).length_le
        _ ≤ afterValidity.length := (passes_of_readName subjectRead).length_le
        _ ≤ afterIssuer.length := (passes_of_skipValidity validity).length_le
        _ ≤ afterAlgorithm.length := (passes_of_readName issuerRead).length_le
        _ ≤ afterSerial.length := (passes_of_skipAlgorithm bodyAlgorithm).length_le
        _ ≤ fields.length := readOpenItem_length_le serialRead
        _ ≤ body.length := length_of_skipVersion version
        _ < lengthBound := (readContainer_extent inner).1
    · intro extensions read
      have isBody : ofBody? body =
          some ⟨serial.content, issuer, subject, publicKey, extensions⟩ := by
        simp only [ofBody?, version, serialRead, isSerial, bodyAlgorithm, issuerRead, validity,
          subjectRead, keyRead, issuerId, subjectId, read, Option.bind_eq_bind, Option.bind_some,
          if_false, Option.pure_def]
      refine ⟨⟨serial.content, issuer, subject, publicKey, extensions⟩, ?_, rfl⟩
      simp only [ofDer?, outer, inner, isBody, algorithm, signed, Option.bind_eq_bind,
        Option.bind_some, Option.pure_def]

/-- A certificate is read with exactly the extensions that are written in it. -/
theorem exists_of_hasExtensions {der : List UInt8} {forms : List ExtensionForm}
    (has : HasExtensions der forms) :
    ∃ certificate, ofDer? der = some certificate ∧
      certificate.extensions = forms.map ExtensionForm.extension := by
  obtain ⟨part, placed, spells⟩ := has
  obtain ⟨bounded, isCertificate⟩ := exists_of_extensionPart? placed
  exact isCertificate _ (ExtensionForm.readExtensions_of_spells spells bounded)

end Certificate

end CertificateAudit
