import CertificateAudit.Proofs.Certificate.Extensions
import CertificateAudit.Proofs.Der.Delimited

/-!
Certificates written from their fields. What the names, the algorithms and the key say is any
bytes; `Outline.encode` puts the extensions in their place, and there they are found
(`Outline.hasExtensions_encode`).
-/

namespace CertificateAudit

open CertificateAudit.Der

/-- An algorithm: its identifier and its parameters, which are any bytes. -/
structure AlgorithmForm where
  id : List UInt8
  parameters : List UInt8

def AlgorithmForm.encode (form : AlgorithmForm) : List UInt8 :=
  Der.encode 0x30 (Der.encode 0x06 form.id ++ form.parameters)

namespace Certificate

theorem skipAlgorithm_encode (form : AlgorithmForm) (bounded : form.encode.length < lengthBound)
    (rest : List UInt8) : skipAlgorithm (form.encode ++ rest) = some rest := by
  have content := length_lt_encode 0x30 (Der.encode 0x06 form.id ++ form.parameters)
  have id := length_lt_encode 0x06 form.id
  rw [AlgorithmForm.encode] at bounded ⊢
  rw [List.length_append] at content
  have container := readContainer_sequence (Der.encode 0x06 form.id ++ form.parameters) rest
    (by rw [List.length_append]; omega)
  have primitive := readPrimitive_objectId form.id form.parameters (by omega)
  simp only [skipAlgorithm, container, primitive, Option.bind_eq_bind, Option.bind_some,
    Option.pure_def]

theorem isDelimited_skipTime :
    IsDelimited fun bytes => (skipTime bytes).map fun rest => ((), rest) := by
  have delimited := IsDelimited.bind isDelimited_readItem fun item =>
    IsDelimited.choose (item.tag.number = 23)
      (.given (Clock.ofShortYear? item.content) fun clock =>
        .choose (isInstant clock (clock.year + if 50 ≤ clock.year then 1900 else 2000) = true)
          (.pure ()) .nothing)
      (.choose (item.tag.number = 24)
        (.given (Clock.ofLongYear? item.content) fun clock =>
          .choose (item.content.getLast? = some 0x5a ∧ 0x2c ∉ item.content ∧
            isInstant clock clock.year = true) (.pure ()) .nothing)
        .nothing)
  convert delimited using 1
  funext bytes
  rw [skipTime]
  cases readItem bytes with
  | none => rfl
  | some found =>
      simp only [Option.bind_eq_bind, Option.bind_some]
      split
      case isTrue =>
        cases Clock.ofShortYear? found.1.content with
        | none => rfl
        | some clock => exact apply_ite (Option.map fun rest => ((), rest)) _ _ _
      case isFalse =>
        split
        case isTrue =>
          cases Clock.ofLongYear? found.1.content with
          | none => rfl
          | some clock => exact apply_ite (Option.map fun rest => ((), rest)) _ _ _
        case isFalse => rfl

/-- A time is read off the front of any rest. -/
theorem skipTime_append {time : List UInt8} (read : skipTime time = some []) (rest : List UInt8) :
    skipTime (time ++ rest) = some rest := by
  have whole : (skipTime time).map (fun rest => ((), rest)) = some ((), []) := by
    rw [read]
    rfl
  obtain ⟨front, rfl, delimits⟩ := isDelimited_skipTime _ _ _ whole
  obtain ⟨behind, skipped, same⟩ := Option.map_eq_some_iff.mp (delimits.leaves rest)
  rw [List.append_nil, skipped, (Prod.mk.inj same).2]

end Certificate

theorem Name.exists_read_encode (content rest : List UInt8)
    (bounded : content.length < lengthBound) :
    ∃ name, Name.read (Der.encode 0x30 content ++ rest) = some (name, rest) := by
  have container := readContainer_sequence content rest bounded
  simp only [Name.read, container, Option.bind_eq_bind, Option.bind_some, Option.pure_def]
  exact ⟨_, rfl⟩

theorem Der.readBitString_encode {content : List UInt8} (padded : hasZeroPadding content = true)
    (bounded : content.length < lengthBound) (rest : List UInt8) :
    readBitString (Der.encode 0x03 content ++ rest) = some (content.drop 1, rest) := by
  have plain : isConstructed 0x03 = false := by decide
  simp [readBitString, readItem_encode (show IsWholeTag 0x03 by decide) bounded, Item.of, plain,
    padded]

namespace Certificate

theorem skipVersion_encode {version : UInt8} (small : version < 0x80) (rest : List UInt8) :
    skipVersion (Der.encode 0xa0 (Der.encode 0x02 [version]) ++ rest) = some rest := by
  have plain : isConstructed 0x02 = false := by decide
  have ofContext : TagClass.ofByte 0xa0 = .contextSpecific := by decide
  have single : [version].length < lengthBound := by simp [lengthBound]
  have short : (Der.encode 0x02 [version]).length < lengthBound := by
    simp [Der.encode, encodeLength, lengthBound]
  have number := readItem_encode (show IsWholeTag 0x02 by decide) single []
  rw [List.append_nil] at number
  have isNumber : isVersionNumber (Der.encode 0x02 [version]) = true := by
    simp [isVersionNumber, number, Item.of, plain, small]
  have item := readItem_encode (show IsWholeTag 0xa0 by decide) short rest
  have given : (Der.encode 0xa0 (Der.encode 0x02 [version]) ++ rest).isEmpty = false := rfl
  simp [skipVersion, given, item, Item.of, ofContext, isNumber]

/-- Without a version the serial number comes first. -/
theorem skipVersion_encode_serial {serial : List UInt8} (bounded : serial.length < lengthBound)
    (rest : List UInt8) :
    skipVersion (Der.encode 0x02 serial ++ rest) = some (Der.encode 0x02 serial ++ rest) := by
  have item := readItem_encode (show IsWholeTag 0x02 by decide) bounded rest
  have given : (Der.encode 0x02 serial ++ rest).isEmpty = false := rfl
  simp [skipVersion, given, item, Item.of]

theorem skipUniqueId_encode {number : Nat} {tagByte : UInt8} {content : List UInt8}
    (whole : IsWholeTag tagByte) (tagged : tagByte.toNat % 32 = number)
    (ofContext : TagClass.ofByte tagByte = .contextSpecific) (given : content ≠ [])
    (bounded : content.length < lengthBound) (rest : List UInt8) :
    skipUniqueId number (Der.encode tagByte content ++ rest) = some rest := by
  have item := readItem_encode whole bounded rest
  have nonempty : (Der.encode tagByte content ++ rest).isEmpty = false := rfl
  simp [skipUniqueId, nonempty, item, Item.of, tagged, ofContext, given]

theorem skipUniqueId_encode_other {number : Nat} {tagByte : UInt8} {content : List UInt8}
    (whole : IsWholeTag tagByte) (tagged : tagByte.toNat % 32 ≠ number)
    (bounded : content.length < lengthBound) (rest : List UInt8) :
    skipUniqueId number (Der.encode tagByte content ++ rest) =
      some (Der.encode tagByte content ++ rest) := by
  have item := readItem_encode whole bounded rest
  have nonempty : (Der.encode tagByte content ++ rest).isEmpty = false := rfl
  simp [skipUniqueId, nonempty, item, Item.of, tagged]

theorem readPublicKey_encode (algorithm : AlgorithmForm) {key : List UInt8}
    (padded : hasZeroPadding key = true)
    (bounded : (Der.encode 0x30 (algorithm.encode ++ Der.encode 0x03 key)).length < lengthBound)
    (rest : List UInt8) :
    readPublicKey (Der.encode 0x30 (algorithm.encode ++ Der.encode 0x03 key) ++ rest) =
      some (key.drop 1, rest) := by
  have content := length_lt_encode 0x30 (algorithm.encode ++ Der.encode 0x03 key)
  have bits := length_lt_encode 0x03 key
  rw [List.length_append] at content
  have container := readContainer_sequence (algorithm.encode ++ Der.encode 0x03 key) rest
    (by rw [List.length_append]; omega)
  have bitString := readBitString_encode padded (by omega) []
  rw [List.append_nil] at bitString
  simp only [readPublicKey, container, skipAlgorithm_encode algorithm (by omega), bitString,
    Option.bind_eq_bind, Option.bind_some, Option.pure_def]

theorem skipValidity_encode {start finish : List UInt8} (startRead : skipTime start = some [])
    (finishRead : skipTime finish = some [])
    (bounded : (start ++ finish).length < lengthBound) (rest : List UInt8) :
    skipValidity (Der.encode 0x30 (start ++ finish) ++ rest) = some rest := by
  have container := readContainer_sequence (start ++ finish) rest bounded
  simp only [skipValidity, container, skipTime_append startRead, finishRead, Option.bind_eq_bind,
    Option.bind_some, Option.pure_def]

end Certificate

/-- What a certificate says besides its extensions. -/
structure Outline where
  version : Option UInt8
  versionSmall : ∀ number ∈ version, number < 0x80
  serial : List UInt8
  algorithm : AlgorithmForm
  issuer : List UInt8
  start : List UInt8
  startRead : Certificate.skipTime start = some []
  finish : List UInt8
  finishRead : Certificate.skipTime finish = some []
  subject : List UInt8
  keyAlgorithm : AlgorithmForm
  key : List UInt8
  keyPadded : hasZeroPadding key = true
  issuerId : Option (List UInt8)
  issuerIdGiven : ∀ id ∈ issuerId, id ≠ []
  subjectId : Option (List UInt8)
  subjectIdGiven : ∀ id ∈ subjectId, id ≠ []
  signatureAlgorithm : AlgorithmForm
  signature : List UInt8
  signaturePadded : hasZeroPadding signature = true

namespace Outline

def ids (outline : Outline) (part : List UInt8) : List UInt8 :=
  (outline.issuerId.toList.flatMap (Der.encode 0x81)) ++
    ((outline.subjectId.toList.flatMap (Der.encode 0x82)) ++ part)

/-- The fields from the serial number on. -/
def fields (outline : Outline) (part : List UInt8) : List UInt8 :=
  Der.encode 0x02 outline.serial ++
    (outline.algorithm.encode ++
      (Der.encode 0x30 outline.issuer ++
        (Der.encode 0x30 (outline.start ++ outline.finish) ++
          (Der.encode 0x30 outline.subject ++
            (Der.encode 0x30 (outline.keyAlgorithm.encode ++ Der.encode 0x03 outline.key) ++
              outline.ids part)))))

def body (outline : Outline) (part : List UInt8) : List UInt8 :=
  (outline.version.toList.flatMap fun number => Der.encode 0xa0 (Der.encode 0x02 [number])) ++
    outline.fields part

/-- The certificate with the given bytes in the place of the extensions. -/
def encode (outline : Outline) (part : List UInt8) : List UInt8 :=
  Der.encode 0x30 (Der.encode 0x30 (outline.body part) ++
    (outline.signatureAlgorithm.encode ++ Der.encode 0x03 outline.signature))

variable {outline : Outline} {forms : List ExtensionForm} {part : List UInt8}

/-- Where the extensions come first, there is no unique identifier. -/
theorem skipUniqueId_part (spells : ExtensionForm.Spells forms part)
    (bounded : part.length < lengthBound) {number : Nat} (other : number ≠ 3) :
    Certificate.skipUniqueId number part = some part := by
  cases spells with
  | none => rfl
  | block forms =>
      have content := length_lt_encode 0xa3
        (Der.encode 0x30 (forms.flatMap ExtensionForm.encode))
      have skipped := Certificate.skipUniqueId_encode_other (show IsWholeTag 0xa3 by decide)
        (show 0xa3 % 32 ≠ number from other.symm) (Nat.lt_trans content bounded) []
      rwa [List.append_nil] at skipped

/-- Either identifier may be there or not. -/
theorem skipUniqueId_ids (outline : Outline) (spells : ExtensionForm.Spells forms part)
    (bounded : (outline.ids part).length < lengthBound) :
    ∃ rest, Certificate.skipUniqueId 1 (outline.ids part) = some rest ∧
      Certificate.skipUniqueId 2 rest = some part := by
  simp only [ids, List.length_append] at bounded
  have inPart : part.length < lengthBound := by omega
  refine ⟨outline.subjectId.toList.flatMap (Der.encode 0x82) ++ part, ?_, ?_⟩
  · unfold ids
    cases issuerId : outline.issuerId with
    | some id =>
        rw [issuerId] at bounded
        simp only [Option.toList_some, List.flatMap_cons, List.flatMap_nil, List.append_nil]
          at bounded ⊢
        have content := length_lt_encode 0x81 id
        exact Certificate.skipUniqueId_encode (by decide) (by decide) (by decide)
          (outline.issuerIdGiven id issuerId) (by omega) _
    | none =>
        cases subjectId : outline.subjectId with
        | some id =>
            rw [subjectId] at bounded
            simp only [Option.toList_none, Option.toList_some, List.flatMap_cons,
              List.flatMap_nil, List.append_nil, List.nil_append] at bounded ⊢
            have content := length_lt_encode 0x82 id
            exact Certificate.skipUniqueId_encode_other (by decide) (by decide) (by omega) _
        | none => exact skipUniqueId_part spells inPart (by decide)
  · cases subjectId : outline.subjectId with
    | some id =>
        rw [subjectId] at bounded
        simp only [Option.toList_some, List.flatMap_cons, List.flatMap_nil, List.append_nil]
          at bounded ⊢
        have content := length_lt_encode 0x82 id
        exact Certificate.skipUniqueId_encode (by decide) (by decide) (by decide)
          (outline.subjectIdGiven id subjectId) (by omega) _
    | none => exact skipUniqueId_part spells inPart (by decide)

theorem skipVersion_body (bounded : (outline.body part).length < lengthBound) :
    Certificate.skipVersion (outline.body part) = some (outline.fields part) := by
  unfold body at bounded ⊢
  cases version : outline.version with
  | some number =>
      simp only [Option.toList_some, List.flatMap_cons, List.flatMap_nil, List.append_nil]
      exact Certificate.skipVersion_encode (outline.versionSmall number version) _
  | none =>
      have content := length_lt_encode 0x02 outline.serial
      simp only [fields, List.length_append] at bounded
      exact Certificate.skipVersion_encode_serial (by omega) _

/-- What is written in the place of the extensions is found there. -/
theorem extensionPart?_encode (spells : ExtensionForm.Spells forms part)
    (bounded : (outline.encode part).length < lengthBound) :
    Certificate.extensionPart? (outline.encode part) = some part := by
  have whole := length_lt_encode 0x30 (Der.encode 0x30 (outline.body part) ++
    (outline.signatureAlgorithm.encode ++ Der.encode 0x03 outline.signature))
  have signedPart := length_lt_encode 0x30 (outline.body part)
  have signature := length_lt_encode 0x03 outline.signature
  have serial := length_lt_encode 0x02 outline.serial
  have issuer := length_lt_encode 0x30 outline.issuer
  have validity := length_lt_encode 0x30 (outline.start ++ outline.finish)
  have subject := length_lt_encode 0x30 outline.subject
  rw [← encode] at whole
  simp only [List.length_append] at whole
  have inBody : (outline.body part).length < lengthBound := by omega
  have inFields := inBody
  simp only [body, fields, List.length_append] at inFields
  have serialBound : outline.serial.length < lengthBound := by omega
  have outer := readContainer_sequence (Der.encode 0x30 (outline.body part) ++
      (outline.signatureAlgorithm.encode ++ Der.encode 0x03 outline.signature)) []
    (by simp only [List.length_append]; omega)
  have inner := readContainer_sequence (outline.body part)
    (outline.signatureAlgorithm.encode ++ Der.encode 0x03 outline.signature) inBody
  have signed := readBitString_encode outline.signaturePadded (by omega) []
  have serialRead := readOpenItem_encode (show IsWholeTag 0x02 by decide) serialBound
  have isSerial : (Item.of 0x02 outline.serial).tag.number = 2 := rfl
  obtain ⟨issuerName, issuerRead⟩ := Name.exists_read_encode outline.issuer
    (Der.encode 0x30 (outline.start ++ outline.finish) ++
      (Der.encode 0x30 outline.subject ++
        (Der.encode 0x30 (outline.keyAlgorithm.encode ++ Der.encode 0x03 outline.key) ++
          outline.ids part))) (by omega)
  have validityRead := Certificate.skipValidity_encode outline.startRead outline.finishRead
    (by omega)
  obtain ⟨subjectName, subjectRead⟩ := Name.exists_read_encode outline.subject
    (Der.encode 0x30 (outline.keyAlgorithm.encode ++ Der.encode 0x03 outline.key) ++
      outline.ids part) (by omega)
  have keyRead := Certificate.readPublicKey_encode outline.keyAlgorithm outline.keyPadded
    (by omega)
  obtain ⟨rest, issuerId, subjectId⟩ := skipUniqueId_ids outline spells (by omega)
  rw [List.append_nil] at outer signed
  simp only [Certificate.extensionPart?, encode, outer, inner,
    Certificate.skipAlgorithm_encode outline.signatureAlgorithm (by omega), signed,
    skipVersion_body inBody, fields, serialRead, isSerial,
    Certificate.skipAlgorithm_encode outline.algorithm (by omega), issuerRead, validityRead,
    subjectRead, keyRead, issuerId, subjectId, Option.bind_eq_bind, Option.bind_some, ne_eq,
    not_true_eq_false, if_false]

theorem hasExtensions_encode (spells : ExtensionForm.Spells forms part)
    (bounded : (outline.encode part).length < lengthBound) :
    Certificate.HasExtensions (outline.encode part) forms :=
  ⟨part, extensionPart?_encode spells bounded, spells⟩

end Outline

end CertificateAudit
