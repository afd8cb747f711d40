import CertificateAudit.Proofs.Certificate.Outline
import CertificateAudit.Proofs.Text.Ascii
import CertificateAudit.Revocation.Issuer

/-!
Where a certificate says to ask. The first extension for that decides, and in the list it holds
the first descriptor that has the wanted method and a URL: `Certificate.location_of_descriptors`
goes from the bytes of the certificate to that URL.
-/

namespace CertificateAudit

open CertificateAudit.Der CertificateAudit.Text

/-- A location: text in ASCII, or the name of a directory entry, whose parts are any bytes. -/
inductive Location where
  | url (text : List Char) (ascii : IsAscii text)
  | dns (name : List Char) (ascii : IsAscii name)
  | email (address : List Char) (ascii : IsAscii address)
  | directory (name : List UInt8)

namespace Location

def encode : Location → List UInt8
  | .url text _ => Der.encode 0x86 (asciiBytes text)
  | .dns name _ => Der.encode 0x82 (asciiBytes name)
  | .email address _ => Der.encode 0x81 (asciiBytes address)
  | .directory name => Der.encode 0xa4 (Der.encode 0x30 name)

def url? : Location → Option String
  | .url text _ => some (String.ofList text)
  | _ => none

theorem text?_asciiBytes {text : List Char} (ascii : IsAscii text) :
    Utf8.text? (asciiBytes text) = some (String.ofList text) := by
  rw [Utf8.text?, Utf8.decode?_asciiBytes ascii]
  rfl

/-- A location of each form is recognised, and only a URL gives one. -/
theorem exists_readItem_encode (location : Location)
    (bounded : location.encode.length < lengthBound) (rest : List UInt8) :
    ∃ item, readItem (location.encode ++ rest) = some (item, rest) ∧
      AccessDescription.location? item = some location.url? := by
  have ofContext : TagClass.ofByte 0x86 = .contextSpecific ∧
      TagClass.ofByte 0x82 = .contextSpecific ∧ TagClass.ofByte 0x81 = .contextSpecific ∧
      TagClass.ofByte 0xa4 = .contextSpecific := by decide
  obtain ⟨ofUrl, ofDns, ofEmail, ofDirectory⟩ := ofContext
  cases location with
  | url text ascii =>
      have content := length_lt_encode 0x86 (asciiBytes text)
      refine ⟨_, readItem_encode (by decide) (Nat.lt_trans content bounded) rest, ?_⟩
      simp [AccessDescription.location?, Item.of, ofUrl, text?_asciiBytes ascii, url?]
  | dns name ascii =>
      have content := length_lt_encode 0x82 (asciiBytes name)
      refine ⟨_, readItem_encode (by decide) (Nat.lt_trans content bounded) rest, ?_⟩
      simp [AccessDescription.location?, Item.of, ofDns, text?_asciiBytes ascii, url?]
  | email address ascii =>
      have content := length_lt_encode 0x81 (asciiBytes address)
      refine ⟨_, readItem_encode (by decide) (Nat.lt_trans content bounded) rest, ?_⟩
      simp [AccessDescription.location?, Item.of, ofEmail, text?_asciiBytes ascii, url?]
  | directory name =>
      have content := length_lt_encode 0xa4 (Der.encode 0x30 name)
      have inner := length_lt_encode 0x30 name
      have outerBound : (Der.encode 0x30 name).length < lengthBound :=
        Nat.lt_trans content bounded
      refine ⟨_, readItem_encode (by decide) outerBound rest, ?_⟩
      obtain ⟨entry, nameRead⟩ := Name.exists_read_encode name [] (Nat.lt_trans inner outerBound)
      rw [List.append_nil] at nameRead
      simp [AccessDescription.location?, Item.of, ofDirectory, nameRead, url?]

end Location

/-- A method with its location, as it is written. -/
structure Descriptor where
  method : Oid
  location : Location

namespace Descriptor

def encode (descriptor : Descriptor) : List UInt8 :=
  Der.encode 0x30 (Der.encode 0x06 descriptor.method.content ++ descriptor.location.encode)

def encodeAll (descriptors : List Descriptor) : List UInt8 :=
  Der.encode 0x30 (descriptors.flatMap encode)

def description (descriptor : Descriptor) : AccessDescription where
  method := descriptor.method.content
  url := descriptor.location.url?

theorem read_encode (descriptor : Descriptor) (bounded : descriptor.encode.length < lengthBound)
    (rest : List UInt8) :
    AccessDescription.read (descriptor.encode ++ rest) = some (descriptor.description, rest) := by
  have content := length_lt_encode 0x30
    (Der.encode 0x06 descriptor.method.content ++ descriptor.location.encode)
  have method := length_lt_encode 0x06 descriptor.method.content
  rw [← encode] at content
  have container := readContainer_sequence _ rest (Nat.lt_trans content bounded)
  rw [List.length_append] at content
  have methodRead := readPrimitive_objectId descriptor.method.content
    descriptor.location.encode (by omega)
  obtain ⟨item, itemRead, known⟩ := descriptor.location.exists_readItem_encode (by omega) []
  rw [List.append_nil] at itemRead
  simp only [AccessDescription.read, encode, container, methodRead, itemRead, known,
    Option.bind_eq_bind, Option.bind_some, Option.pure_def]
  rfl

theorem accessDescriptions?_encodeAll {descriptors : List Descriptor}
    (bounded : (encodeAll descriptors).length < lengthBound) :
    accessDescriptions? (encodeAll descriptors) = some (descriptors.map description) := by
  have content := Nat.lt_trans (length_lt_encode 0x30 (descriptors.flatMap encode)) bounded
  have container := readContainer_sequence (descriptors.flatMap encode) [] content
  have all : readAll AccessDescription.read (descriptors.flatMap encode).length
      (descriptors.flatMap encode) = some (descriptors.map description) := by
    refine readAll_flatMap ?_ ?_ (Nat.le_refl _)
    · intro descriptor membership rest
      have shorter : descriptor.encode.length ≤ (descriptors.flatMap encode).length :=
        length_le_flatMap membership
      exact descriptor.read_encode (Nat.lt_of_le_of_lt shorter content) rest
    · intro descriptor _ empty
      cases empty
  rw [List.append_nil] at container
  simp only [accessDescriptions?, encodeAll, container, Option.bind_eq_bind, Option.bind_some, all]

end Descriptor

def AccessMethod.oid : AccessMethod → Oid
  | .ocsp => ⟨1, 3, [6, 1, 5, 5, 7, 48, 1], by decide⟩
  | .caIssuers => ⟨1, 3, [6, 1, 5, 5, 7, 48, 2], by decide⟩

def accessOid : Oid := ⟨1, 3, [6, 1, 5, 5, 7, 1, 1], by decide⟩

theorem AccessMethod.text_content_iff (method : AccessMethod) (oid : Oid) :
    ObjectId.text oid.content = method.objectId ↔ oid = method.oid := by
  have dotted : method.objectId = method.oid.dotted := by
    cases method <;> decide +kernel
  have plain : method.oid.IsPlain := by
    cases method <;> exact ⟨by decide, by decide, by decide +kernel⟩
  rw [dotted]
  exact Oid.text_content_iff plain oid

theorem content_eq_accessId_iff (oid : Oid) :
    oid.content = authorityInfoAccessId ↔ oid = accessOid := by
  have spelled : accessOid.content = authorityInfoAccessId := by decide +kernel
  have plain : accessOid.IsPlain := ⟨by decide, by decide, by decide +kernel⟩
  rw [← spelled]
  constructor
  · intro same
    rw [← Oid.text_content_iff plain, same, Oid.text_content_iff plain]
  · rintro rfl
    rfl

namespace Descriptor

/-- The URL for a method, if the descriptor has one. -/
def urlFor? (method : AccessMethod) (descriptor : Descriptor) : Option String :=
  if descriptor.method = method.oid then descriptor.location.url? else none

/-- What a list of descriptors says for a method: the first URL that is for it. -/
def answer (method : AccessMethod) (descriptors : List Descriptor) :
    Except RevocationError String :=
  match descriptors.findSome? (urlFor? method) with
  | some url => .ok url
  | none => .error (.access (.noDescriptor method))

end Descriptor

/-- The bytes are a certificate whose first extension for access has this value. -/
def Certificate.HasAccess (der value : List UInt8) : Prop :=
  ∃ before critical after,
    HasExtensions der (before ++ ⟨accessOid, critical, value⟩ :: after) ∧
    ∀ form ∈ before, form.id ≠ accessOid

/-- The URL for a method, looked up in a certificate that is given by its bytes. -/
def Certificate.locationIn? (der : List UInt8) (method : AccessMethod) :
    Option (Except RevocationError String) :=
  (ofDer? der).map fun certificate => certificate.location method

namespace Certificate

theorem find?_extension_eq_none {forms : List ExtensionForm}
    (absent : ∀ form ∈ forms, form.id ≠ accessOid) :
    (forms.map ExtensionForm.extension).find?
      (fun extension => extension.objectId == authorityInfoAccessId) = none := by
  rw [List.find?_eq_none]
  intro extension membership
  obtain ⟨form, written, rfl⟩ := List.mem_map.mp membership
  rw [beq_iff_eq]
  exact fun same => absent form written ((content_eq_accessId_iff form.id).mp same)

/-- The first extension for access is the one that decides. -/
theorem HasAccess.exists_find? {der value : List UInt8} (has : HasAccess der value) :
    value.length < lengthBound ∧ ∃ certificate, ofDer? der = some certificate ∧
      certificate.extensions.find? (fun extension => extension.objectId == authorityInfoAccessId) =
        some ⟨authorityInfoAccessId, value⟩ := by
  obtain ⟨before, critical, after, ⟨part, placed, spells⟩, first⟩ := has
  have bounded := (exists_of_extensionPart? placed).1
  obtain ⟨certificate, accepted, extensions⟩ := exists_of_hasExtensions ⟨part, placed, spells⟩
  refine ⟨?_, certificate, accepted, ?_⟩
  · have membership : (⟨accessOid, critical, value⟩ : ExtensionForm) ∈
        before ++ ⟨accessOid, critical, value⟩ :: after :=
      List.mem_append_right before List.mem_cons_self
    exact Nat.lt_trans (spells.length_value_lt membership) bounded
  · have sameId : accessOid.content = authorityInfoAccessId :=
      (content_eq_accessId_iff accessOid).mpr rfl
    rw [extensions, List.map_append, List.find?_append, find?_extension_eq_none first,
      List.map_cons, List.find?_cons_of_pos (by simp [ExtensionForm.extension, sameId])]
    simp [ExtensionForm.extension, sameId]

theorem locationIn?_of_noAccess {der : List UInt8} {forms : List ExtensionForm}
    (has : HasExtensions der forms) (absent : ∀ form ∈ forms, form.id ≠ accessOid)
    (method : AccessMethod) :
    locationIn? der method = some (.error (.access .noExtension)) := by
  obtain ⟨certificate, accepted, extensions⟩ := exists_of_hasExtensions has
  simp only [locationIn?, accepted, Option.map_some, location, accessUrl, extensions,
    find?_extension_eq_none absent]

theorem locationIn?_of_malformed {der value : List UInt8} (has : HasAccess der value)
    (malformed : accessDescriptions? value = none) (method : AccessMethod) :
    locationIn? der method = some (.error (.access .malformed)) := by
  obtain ⟨_, certificate, accepted, found⟩ := has.exists_find?
  simp only [locationIn?, accepted, Option.map_some, location, accessUrl, found, malformed]

/-- Selecting by the text of the method selects by the method. -/
theorem findSome?_wanted (method : AccessMethod) (descriptors : List Descriptor) :
    ((descriptors.map Descriptor.description).filter fun description =>
      ObjectId.text description.method == method.objectId).findSome? AccessDescription.url =
      descriptors.findSome? (Descriptor.urlFor? method) := by
  induction descriptors with
  | nil => rfl
  | cons descriptor descriptors inductionHypothesis =>
      rw [List.map_cons, List.filter_cons, List.findSome?_cons, Descriptor.urlFor?]
      by_cases wanted : descriptor.method = method.oid
      · have sameText := (method.text_content_iff descriptor.method).mpr wanted
        simp only [Descriptor.description, sameText, beq_self_eq_true, if_true,
          List.findSome?_cons, if_pos wanted]
        rw [← inductionHypothesis]
      · have otherText := mt (method.text_content_iff descriptor.method).mp wanted
        simp only [Descriptor.description, beq_eq_false_iff_ne.mpr otherText,
          Bool.false_eq_true, if_false, if_neg wanted]
        exact inductionHypothesis

theorem locationIn?_of_descriptors {der : List UInt8} {descriptors : List Descriptor}
    (has : HasAccess der (Descriptor.encodeAll descriptors)) (method : AccessMethod) :
    locationIn? der method = some (Descriptor.answer method descriptors) := by
  obtain ⟨bounded, certificate, accepted, found⟩ := has.exists_find?
  simp only [locationIn?, accepted, Option.map_some, location, accessUrl, found,
    Descriptor.accessDescriptions?_encodeAll bounded, findSome?_wanted, Descriptor.answer]
  cases descriptors.findSome? (Descriptor.urlFor? method) <;> rfl

end Certificate

/-- Descriptors of other methods and those without a URL do not matter. -/
theorem Descriptor.answer_filter (method : AccessMethod) (descriptors : List Descriptor) :
    answer method (descriptors.filter fun descriptor => (urlFor? method descriptor).isSome) =
      answer method descriptors := by
  have same : (descriptors.filter fun descriptor =>
      (urlFor? method descriptor).isSome).findSome? (urlFor? method) =
      descriptors.findSome? (urlFor? method) := by
    induction descriptors with
    | nil => rfl
    | cons descriptor descriptors inductionHypothesis =>
        cases found : urlFor? method descriptor with
        | none => simp [found, inductionHypothesis]
        | some url => simp [found]
  rw [answer, same, answer]

/-- From the bytes of a certificate to the URL for a method. The first extension for access
decides: if it holds descriptors, the first one with the method and a URL gives the answer, which
does not depend on any other kind of descriptor; if its value cannot be read, that is an error
whatever comes behind it; and if there is no such extension, that is the error. All this holds of
a certificate written from its fields. -/
theorem Certificate.location_of_descriptors (method : AccessMethod) :
    (∀ der descriptors, HasAccess der (Descriptor.encodeAll descriptors) →
      locationIn? der method = some (Descriptor.answer method descriptors)) ∧
    (∀ der der' descriptors others,
      HasAccess der (Descriptor.encodeAll descriptors) →
      HasAccess der' (Descriptor.encodeAll others) →
      (descriptors.filter fun descriptor => (descriptor.urlFor? method).isSome) =
        (others.filter fun descriptor => (descriptor.urlFor? method).isSome) →
      locationIn? der method = locationIn? der' method) ∧
    (∀ der forms, HasExtensions der forms → (∀ form ∈ forms, form.id ≠ accessOid) →
      locationIn? der method = some (.error (.access .noExtension))) ∧
    (∀ der value, HasAccess der value → accessDescriptions? value = none →
      locationIn? der method = some (.error (.access .malformed))) ∧
    ∀ (outline : Outline) forms part, ExtensionForm.Spells forms part →
      (outline.encode part).length < lengthBound →
      HasExtensions (outline.encode part) forms := by
  refine ⟨?_, ?_, ?_, ?_, ?_⟩
  · intro der descriptors has
    exact locationIn?_of_descriptors has method
  · intro der der' descriptors others has otherHas same
    rw [locationIn?_of_descriptors has, locationIn?_of_descriptors otherHas,
      ← Descriptor.answer_filter, same, Descriptor.answer_filter]
  · intro der forms has absent
    exact locationIn?_of_noAccess has absent method
  · intro der value has malformed
    exact locationIn?_of_malformed has malformed method
  · intro outline forms part spells bounded
    exact outline.hasExtensions_encode spells bounded

def sampleOutline : Outline where
  version := some 2
  versionSmall := by simp
  serial := [7]
  algorithm := ⟨[0x2b], [0x05, 0x00]⟩
  issuer := []
  start := Der.encode 0x17 (asciiBytes "240101000000Z".toList)
  startRead := by decide +kernel
  finish := Der.encode 0x18 (asciiBytes "20501231235959Z".toList)
  finishRead := by decide +kernel
  subject := []
  keyAlgorithm := ⟨[0x2b], []⟩
  key := [0x00, 0x01]
  keyPadded := by decide
  issuerId := none
  issuerIdGiven := by simp
  subjectId := some [0x00, 0x01]
  subjectIdGiven := by simp
  signatureAlgorithm := ⟨[0x2b], []⟩
  signature := [0x00]
  signaturePadded := by decide

/-- A longer method and a location that is no URL come before the one that is wanted. -/
def sampleDescriptors : List Descriptor := [
  ⟨⟨1, 3, [6, 1, 5, 5, 7, 48, 1, 1], by decide⟩, .url "http://x".toList (by decide)⟩,
  ⟨AccessMethod.ocsp.oid, .dns "o".toList (by decide)⟩,
  ⟨AccessMethod.caIssuers.oid, .url "http://i".toList (by decide)⟩,
  ⟨AccessMethod.ocsp.oid, .url "http://o".toList (by decide)⟩]

/-- The descriptors behind another extension, and before a value that is none. -/
def sampleForms : List ExtensionForm := [
  ⟨⟨2, 5, [29, 15], by decide⟩, some 0xff, [0x03, 0x01, 0x00]⟩,
  ⟨accessOid, none, Descriptor.encodeAll sampleDescriptors⟩,
  ⟨accessOid, none, []⟩]

theorem Certificate.location_of_descriptors_sample :
    locationIn? (sampleOutline.encode (Der.encode 0xa3 (Der.encode 0x30
      (sampleForms.flatMap ExtensionForm.encode)))) .ocsp = some (.ok "http://o") ∧
    locationIn? (sampleOutline.encode (Der.encode 0xa3 (Der.encode 0x30
      (sampleForms.reverse.flatMap ExtensionForm.encode)))) .ocsp =
      some (.error (.access .malformed)) ∧
    locationIn? (sampleOutline.encode []) .ocsp = some (.error (.access .noExtension)) := by
  obtain ⟨found, _, absent, malformed, has⟩ := location_of_descriptors .ocsp
  refine ⟨?_, ?_, ?_⟩
  · have written := has sampleOutline sampleForms _ (.block _) (by decide +kernel)
    exact found _ sampleDescriptors
      ⟨sampleForms.take 1, none, sampleForms.drop 2, written, by decide⟩
  · have written := has sampleOutline sampleForms.reverse _ (.block _) (by decide +kernel)
    exact malformed _ [] ⟨[], none, _, written, by simp⟩ rfl
  · have written := has sampleOutline [] [] .none (by decide +kernel)
    exact absent _ [] written (by simp)

end CertificateAudit
