import CertificateAudit.Ocsp.Request
import CertificateAudit.Proofs.Audit.Acceptance
import CertificateAudit.Proofs.Certificate.Fields
import CertificateAudit.Proofs.Der.Strict

/-!
The encoded question is strict, of whatever length the serial number is: it decodes as a whole,
and what it decodes to is `question`. The digests and the serial number in it are those of the
fields of the two certificates, with one exception: of an issuer's name only the bytes in front
of the first part that cannot be read are digested.
-/

namespace CertificateAudit.Ocsp

open CertificateAudit.Der
open CertificateAudit.Digest.Sha1 (digest length_digest)

/-- The element that names SHA-1, which has no parameters. -/
def algorithmTree : Tree :=
  .constructed 0x30 [.primitive 0x06 (ObjectId.encode [1, 3, 14, 3, 2, 26]), .primitive 0x05 []]

/-- A question about one certificate, element by element: the question, what would be signed of
it, the list of requests, the only request, and in that the identification of the certificate
under SHA-1. -/
def question (nameHash keyHash serial : List UInt8) : Tree :=
  .constructed 0x30 [.constructed 0x30 [.constructed 0x30 [.constructed 0x30 [.constructed 0x30 [
    algorithmTree, .primitive 0x04 nameHash, .primitive 0x04 keyHash, .primitive 0x02 serial]]]]]

theorem question_inj {nameHash keyHash serial nameHash' keyHash' serial' : List UInt8} :
    question nameHash keyHash serial = question nameHash' keyHash' serial' ↔
      nameHash = nameHash' ∧ keyHash = keyHash' ∧ serial = serial' := by
  simp [question]

theorem request_eq_encode (certificate issuer : Certificate) :
    request certificate issuer =
      (question (digest certificate.issuer.raw) (digest issuer.publicKey)
        certificate.serial).encode := by
  have algorithm : sha1Algorithm = algorithmTree.encode := by decide +kernel
  simp [request, certId, sequence, question, Tree.encode, Tree.encodeAll, algorithm]

/-! Sizes. A question is longer than the serial number in it by a bounded number of bytes. -/

theorem fitsIn_algorithmTree : Tree.FitsIn 38 algorithmTree := by
  have objectId : Tree.FitsIn 16 (.primitive 0x06 (ObjectId.encode [1, 3, 14, 3, 2, 26])) :=
    .primitive (by decide) (by decide +kernel) (by decide)
  have null : Tree.FitsIn 11 (.primitive 0x05 []) :=
    .primitive (by decide) (Nat.le_refl 0) (by decide)
  apply Tree.FitsIn.constructed (by decide)
  · simpa using ⟨objectId.strict, null.strict⟩
  · have objectIdShort := objectId.short
    have nullShort := null.short
    simp only [Tree.encodeAll, List.length_append, List.length_nil]
    omega
  · decide

theorem fitsIn_question {nameHash keyHash serial : List UInt8} {size : Nat}
    (nameSize : nameHash.length = 20) (keySize : keyHash.length = 20)
    (short : serial.length ≤ size) (bounded : size + 512 < 256 ^ 9) :
    Tree.FitsIn (size + 166) (question nameHash keyHash serial) := by
  have name : Tree.FitsIn 31 (.primitive 0x04 nameHash) :=
    .primitive (by decide) (Nat.le_of_eq nameSize) (by decide)
  have key : Tree.FitsIn 31 (.primitive 0x04 keyHash) :=
    .primitive (by decide) (Nat.le_of_eq keySize) (by decide)
  have number : Tree.FitsIn (size + 11) (.primitive 0x02 serial) :=
    .primitive (by decide) short (by omega)
  have certId : Tree.FitsIn (size + 122) (.constructed 0x30
      [algorithmTree, .primitive 0x04 nameHash, .primitive 0x04 keyHash,
        .primitive 0x02 serial]) := by
    apply Tree.FitsIn.constructed (by decide)
    · simpa using ⟨fitsIn_algorithmTree.strict, name.strict, key.strict, number.strict⟩
    · have algorithmShort := fitsIn_algorithmTree.short
      have nameShort := name.short
      have keyShort := key.short
      have numberShort := number.short
      simp only [Tree.encodeAll, List.length_append, List.length_nil]
      omega
    · omega
  have isSequence : isConstructed 0x30 = true ∧ IsWholeTag 0x30 := by decide
  have request := certId.enclose isSequence (by omega)
  have requestList := request.enclose isSequence (by omega)
  have toBeSigned := requestList.enclose isSequence (by omega)
  exact toBeSigned.enclose isSequence (by omega)

theorem decode_request_of_bounded {certificate : Certificate} (issuer : Certificate)
    (bounded : certificate.serial.length < lengthBound) :
    Tree.decode (request certificate issuer) =
      some (question (digest certificate.issuer.raw) (digest issuer.publicKey)
        certificate.serial) := by
  rw [Tree.decode_eq_some_iff]
  refine ⟨?_, request_eq_encode certificate issuer⟩
  have fits := fitsIn_question (length_digest certificate.issuer.raw)
    (length_digest issuer.publicKey) (Nat.le_of_lt bounded) (by decide)
  exact fits.strict

/-- Every question about a certificate that could be read decodes to what was asked. The serial
number stands in it as in the certificate, and the second digest is that of the issuer's key
without the byte that counts unused bits. The first digest is that of the issuer's name if every
part of the name can be read, and else that of the bytes in front of the first part that cannot.
Equal questions ask for the same digests and the same spelling of a serial number. -/
theorem decode_request {leafDer issuerDer : List UInt8} {leaf issuer : Certificate}
    (leafRead : Certificate.ofDer? leafDer = some leaf)
    (issuerRead : Certificate.ofDer? issuerDer = some issuer) :
    (∃ element name unusedBits,
      Certificate.serialField? leafDer = some leaf.serial ∧
      Certificate.issuerField? leafDer = some (element, name) ∧
      Certificate.keyField? issuerDer = some (unusedBits :: issuer.publicKey) ∧
      leaf.issuer.raw <+: element ∧
      (leaf.issuer.raw = element ↔ Name.IsReadable name.content) ∧
      Tree.decode (request leaf issuer) =
        some (question (digest leaf.issuer.raw) (digest issuer.publicKey) leaf.serial)) ∧
    ∀ otherDer other otherIssuer, Certificate.ofDer? otherDer = some other →
      request leaf issuer = request other otherIssuer →
      digest leaf.issuer.raw = digest other.issuer.raw ∧
        digest issuer.publicKey = digest otherIssuer.publicKey ∧ leaf.serial = other.serial := by
  have decoded := decode_request_of_bounded issuer (Certificate.length_serial_lt leafRead)
  obtain ⟨element, name, found, front, whole⟩ := Certificate.issuerField?_eq leafRead
  obtain ⟨unusedBits, key⟩ := Certificate.keyField?_eq issuerRead
  refine ⟨⟨element, name, unusedBits, Certificate.serialField?_eq leafRead, found, key, front,
    whole, decoded⟩, ?_⟩
  intro otherDer other otherIssuer otherRead same
  have otherDecoded :=
    decode_request_of_bounded otherIssuer (Certificate.length_serial_lt otherRead)
  rw [← same, decoded] at otherDecoded
  exact question_inj.mp (Option.some.inj otherDecoded)

theorem decode_request_sample :
    ∃ certificate name unusedBits,
      Certificate.ofDer? Audit.sampleCertificate = some certificate ∧
      Certificate.issuerField? Audit.sampleCertificate = some (certificate.issuer.raw, name) ∧
      Certificate.keyField? Audit.sampleCertificate =
        some (unusedBits :: certificate.publicKey) ∧
      Tree.decode (request certificate certificate) =
        some (question (digest certificate.issuer.raw) (digest certificate.publicKey) [7]) := by
  have accepted : (Certificate.ofDer? Audit.sampleCertificate).isSome := by decide +kernel
  obtain ⟨certificate, accepted⟩ := Option.isSome_iff_exists.mp accepted
  obtain ⟨⟨element, name, unusedBits, serial, issuer, key, -, whole, decoded⟩, -⟩ :=
    decode_request accepted accepted
  have issuerRead : Certificate.issuerField? Audit.sampleCertificate =
      some ([0x30, 0x00], ⟨⟨.universal, 16⟩, true, []⟩) := by
    decide +kernel
  have serialRead : Certificate.serialField? Audit.sampleCertificate = some [7] := by
    decide +kernel
  rw [issuerRead] at issuer
  obtain ⟨rfl, rfl⟩ := Prod.mk.inj (Option.some.inj issuer)
  rw [serialRead] at serial
  rw [← Option.some.inj serial] at decoded
  have readable : Name.IsReadable [] := by decide
  rw [← whole.mpr readable] at issuerRead
  exact ⟨certificate, _, unusedBits, accepted, issuerRead, key, decoded⟩

/-- The issuer's name in `clippedLeaf`: an empty part, and a part that says `CN=x`. -/
def clippedName : List UInt8 :=
  [0x30, 0x0e, 0x31, 0x00, 0x31, 0x0a, 0x30, 0x08, 0x06, 0x03, 0x55, 0x04, 0x03, 0x0c, 0x01, 0x78]

def clippedLeaf : List UInt8 :=
  [0x30, 0x82, 0x01, 0x2e, 0x30, 0x82, 0x01, 0x16, 0xa0, 0x03, 0x02, 0x01, 0x02, 0x02, 0x03, 0x0a,
    0x1b, 0x2c, 0x30, 0x0d, 0x06, 0x09, 0x2a, 0x86, 0x48, 0x86, 0xf7, 0x0d, 0x01, 0x01, 0x0b,
    0x05, 0x00, 0x30, 0x0e, 0x31, 0x00, 0x31, 0x0a, 0x30, 0x08, 0x06, 0x03, 0x55, 0x04, 0x03,
    0x0c, 0x01, 0x78, 0x30, 0x1e, 0x17, 0x0d, 0x32, 0x34, 0x30, 0x31, 0x30, 0x31, 0x30, 0x30,
    0x30, 0x30, 0x30, 0x30, 0x5a, 0x17, 0x0d, 0x32, 0x35, 0x30, 0x31, 0x30, 0x31, 0x30, 0x30,
    0x30, 0x30, 0x30, 0x30, 0x5a, 0x30, 0x16, 0x31, 0x14, 0x30, 0x12, 0x06, 0x03, 0x55, 0x04,
    0x03, 0x0c, 0x0b, 0x65, 0x78, 0x61, 0x6d, 0x70, 0x6c, 0x65, 0x2e, 0x63, 0x6f, 0x6d, 0x30,
    0x59, 0x30, 0x13, 0x06, 0x07, 0x2a, 0x86, 0x48, 0xce, 0x3d, 0x02, 0x01, 0x06, 0x08, 0x2a,
    0x86, 0x48, 0xce, 0x3d, 0x03, 0x01, 0x07, 0x03, 0x42, 0x00, 0x04, 0x00, 0x01, 0x02, 0x03,
    0x04, 0x05, 0x06, 0x07, 0x08, 0x09, 0x0a, 0x0b, 0x0c, 0x0d, 0x0e, 0x0f, 0x10, 0x11, 0x12,
    0x13, 0x14, 0x15, 0x16, 0x17, 0x18, 0x19, 0x1a, 0x1b, 0x1c, 0x1d, 0x1e, 0x1f, 0x20, 0x21,
    0x22, 0x23, 0x24, 0x25, 0x26, 0x27, 0x28, 0x29, 0x2a, 0x2b, 0x2c, 0x2d, 0x2e, 0x2f, 0x30,
    0x31, 0x32, 0x33, 0x34, 0x35, 0x36, 0x37, 0x38, 0x39, 0x3a, 0x3b, 0x3c, 0x3d, 0x3e, 0x3f,
    0xa3, 0x58, 0x30, 0x56, 0x30, 0x54, 0x06, 0x08, 0x2b, 0x06, 0x01, 0x05, 0x05, 0x07, 0x01,
    0x01, 0x04, 0x48, 0x30, 0x46, 0x30, 0x1d, 0x06, 0x08, 0x2b, 0x06, 0x01, 0x05, 0x05, 0x07,
    0x30, 0x01, 0x86, 0x11, 0x68, 0x74, 0x74, 0x70, 0x3a, 0x2f, 0x2f, 0x6f, 0x63, 0x73, 0x70,
    0x2e, 0x74, 0x65, 0x73, 0x74, 0x2f, 0x30, 0x25, 0x06, 0x08, 0x2b, 0x06, 0x01, 0x05, 0x05,
    0x07, 0x30, 0x02, 0x86, 0x19, 0x68, 0x74, 0x74, 0x70, 0x3a, 0x2f, 0x2f, 0x63, 0x61, 0x2e,
    0x74, 0x65, 0x73, 0x74, 0x2f, 0x69, 0x73, 0x73, 0x75, 0x65, 0x72, 0x2e, 0x64, 0x65, 0x72,
    0x30, 0x0d, 0x06, 0x09, 0x2a, 0x86, 0x48, 0x86, 0xf7, 0x0d, 0x01, 0x01, 0x0b, 0x05, 0x00,
    0x03, 0x03, 0x00, 0x01, 0x02]

def clippedIssuer : List UInt8 :=
  [0x30, 0x81, 0xee, 0x30, 0x81, 0xd7, 0xa0, 0x03, 0x02, 0x01, 0x02, 0x02, 0x01, 0x01, 0x30, 0x0d,
    0x06, 0x09, 0x2a, 0x86, 0x48, 0x86, 0xf7, 0x0d, 0x01, 0x01, 0x0b, 0x05, 0x00, 0x30, 0x3a,
    0x31, 0x0b, 0x30, 0x09, 0x06, 0x03, 0x55, 0x04, 0x06, 0x13, 0x02, 0x55, 0x53, 0x31, 0x16,
    0x30, 0x14, 0x06, 0x03, 0x55, 0x04, 0x0a, 0x0c, 0x0d, 0x63, 0x74, 0x2d, 0x61, 0x75, 0x64,
    0x69, 0x74, 0x20, 0x54, 0x65, 0x73, 0x74, 0x31, 0x13, 0x30, 0x11, 0x06, 0x03, 0x55, 0x04,
    0x03, 0x0c, 0x0a, 0x49, 0x73, 0x73, 0x75, 0x69, 0x6e, 0x67, 0x20, 0x43, 0x41, 0x30, 0x1e,
    0x17, 0x0d, 0x32, 0x34, 0x30, 0x31, 0x30, 0x31, 0x30, 0x30, 0x30, 0x30, 0x30, 0x30, 0x5a,
    0x17, 0x0d, 0x32, 0x35, 0x30, 0x31, 0x30, 0x31, 0x30, 0x30, 0x30, 0x30, 0x30, 0x30, 0x5a,
    0x30, 0x3a, 0x31, 0x0b, 0x30, 0x09, 0x06, 0x03, 0x55, 0x04, 0x06, 0x13, 0x02, 0x55, 0x53,
    0x31, 0x16, 0x30, 0x14, 0x06, 0x03, 0x55, 0x04, 0x0a, 0x0c, 0x0d, 0x63, 0x74, 0x2d, 0x61,
    0x75, 0x64, 0x69, 0x74, 0x20, 0x54, 0x65, 0x73, 0x74, 0x31, 0x13, 0x30, 0x11, 0x06, 0x03,
    0x55, 0x04, 0x03, 0x0c, 0x0a, 0x49, 0x73, 0x73, 0x75, 0x69, 0x6e, 0x67, 0x20, 0x43, 0x41,
    0x30, 0x26, 0x30, 0x13, 0x06, 0x07, 0x2a, 0x86, 0x48, 0xce, 0x3d, 0x02, 0x01, 0x06, 0x08,
    0x2a, 0x86, 0x48, 0xce, 0x3d, 0x03, 0x01, 0x07, 0x03, 0x0f, 0x00, 0x04, 0x43, 0x41, 0x2d,
    0x70, 0x75, 0x62, 0x6c, 0x69, 0x63, 0x2d, 0x6b, 0x65, 0x79, 0x30, 0x0d, 0x06, 0x09, 0x2a,
    0x86, 0x48, 0x86, 0xf7, 0x0d, 0x01, 0x01, 0x0b, 0x05, 0x00, 0x03, 0x03, 0x00, 0x01, 0x02]

/-- The digest in the question about `clippedLeaf` is not that of its issuer's name. -/
theorem request_clippedLeaf :
    ∃ leaf issuer name nameHash keyHash,
      Certificate.ofDer? clippedLeaf = some leaf ∧
      Certificate.ofDer? clippedIssuer = some issuer ∧
      Certificate.issuerField? clippedLeaf = some (clippedName, name) ∧
      Tree.decode (request leaf issuer) = some (question nameHash keyHash leaf.serial) ∧
      nameHash ≠ digest clippedName := by
  have leafRead : (Certificate.ofDer? clippedLeaf).isSome := by decide +kernel
  have issuerRead : (Certificate.ofDer? clippedIssuer).isSome := by decide +kernel
  obtain ⟨leaf, leafRead⟩ := Option.isSome_iff_exists.mp leafRead
  obtain ⟨issuer, issuerRead⟩ := Option.isSome_iff_exists.mp issuerRead
  have front : (Certificate.ofDer? clippedLeaf).map (fun leaf => leaf.issuer.raw) =
      some [0x30, 0x0e] := by
    decide +kernel
  rw [leafRead, Option.map_some, Option.some_inj] at front
  have found : Certificate.issuerField? clippedLeaf =
      some (clippedName, ⟨⟨.universal, 16⟩, true, clippedName.drop 2⟩) := by
    decide +kernel
  have decoded := decode_request_of_bounded issuer (Certificate.length_serial_lt leafRead)
  refine ⟨leaf, issuer, _, _, _, leafRead, issuerRead, found, decoded, ?_⟩
  rw [front]
  decide +kernel

end CertificateAudit.Ocsp
