import CertificateAudit.Ocsp.Response
import CertificateAudit.Proofs.Der.Value

/-!
Answers of responders as such, and how they are written. What stands under a tag of its own is
not looked into by a reader, so names, extensions and certificates are any bytes here.
-/

namespace CertificateAudit.Ocsp

open CertificateAudit.Calendar CertificateAudit.Der

structure Algorithm where
  objectId : List UInt8
  parameters : Option Value

def Algorithm.value (algorithm : Algorithm) : Value :=
  .sequence (.objectId algorithm.objectId :: algorithm.parameters.toList)

/-- What a responder says about a certificate; a revocation may have a reason code. -/
inductive Standing where
  | good
  | revoked (time : Stamp) (reason : Option UInt8)
  | unknown

namespace Standing

def revocation (time : Stamp) (reason : Option UInt8) : List UInt8 :=
  Der.encode 0x18 time.bytes ++
    reason.toList.flatMap fun code => Der.encode 0xa0 (Der.encode 0x0a [code])

def value : Standing → Value
  | .good => .context false 0 []
  | .revoked time reason => .context true 1 (revocation time reason)
  | .unknown => .context false 2 []

def status : Standing → CertStatus
  | .good => .good
  | .revoked time reason => .revoked time.moment (reason.map reasonName)
  | .unknown => .unknown

end Standing

structure Entry where
  hashAlgorithm : Algorithm
  nameHash : List UInt8
  keyHash : List UInt8
  serial : List UInt8
  standing : Standing
  thisUpdate : Stamp
  noLeap : thisUpdate.moment.second ≤ 59
  nextUpdate : Option Stamp
  extensions : Option (List UInt8)

namespace Entry

def certId (entry : Entry) : Value :=
  .sequence [entry.hashAlgorithm.value, .octetString entry.nameHash,
    .octetString entry.keyHash, .integer entry.serial]

def value (entry : Entry) : Value :=
  .sequence (entry.certId :: entry.standing.value :: .time entry.thisUpdate entry.noLeap ::
    (entry.nextUpdate.toList.map fun time => .context true 0 (Der.encode 0x18 time.bytes)) ++
    entry.extensions.toList.map (.context true 1))

/-- Whether the entry is about a serial number: only the number counts, not its spelling. -/
def isAbout (serial : List UInt8) (entry : Entry) : Bool :=
  unsigned entry.serial == unsigned serial

/-- The entry that decides about a serial number: the first one about it, or else the only entry
there is. -/
def deciding? (serial : List UInt8) (entries : List Entry) : Option Entry :=
  match entries.find? (isAbout serial), entries with
  | some entry, _ => some entry
  | none, [only] => some only
  | none, _ => none

end Entry

inductive Responder where
  | byName (name : List UInt8)
  | byKey (hash : List UInt8)

def Responder.value : Responder → Value
  | .byName name => .context true 1 name
  | .byKey hash => .context true 2 (Der.encode 0x04 hash)

/-- A successful answer. -/
structure Answer where
  version : Option (List UInt8)
  responder : Responder
  producedAt : Stamp
  noLeap : producedAt.moment.second ≤ 59
  entries : List Entry
  extensions : Option (List UInt8)
  algorithm : Algorithm
  unusedBits : UInt8
  signature : List UInt8
  certificates : Option (List UInt8)

namespace Answer

def fields (answer : Answer) : List Value :=
  (answer.version.toList.map fun version => .context true 0 (Der.encode 0x02 version)) ++
    (answer.responder.value :: .time answer.producedAt answer.noLeap ::
      .sequence (answer.entries.map Entry.value) ::
      answer.extensions.toList.map (.context true 1))

def basic (answer : Answer) : Value :=
  .sequence (.sequence answer.fields :: answer.algorithm.value ::
    .bitString answer.unusedBits answer.signature ::
    answer.certificates.toList.map (.context true 0))

def basicType : List UInt8 := [0x2b, 0x06, 0x01, 0x05, 0x05, 0x07, 0x30, 0x01, 0x01]

def typed (answer : Answer) : Value :=
  .sequence [.objectId basicType, .octetString answer.basic.encode]

/-- The answer as it is sent, with the report of success in front. -/
def whole (answer : Answer) : Value :=
  .sequence [.enumerated 0, .context true 0 answer.typed.encode]

def encode (answer : Answer) : List UInt8 :=
  answer.whole.encode

def statusOf (serial : List UInt8) (answer : Answer) : Except Fault CertStatus :=
  match Entry.deciding? serial answer.entries with
  | some entry => .ok entry.standing.status
  | none => .error .noMatchingResponse

end Answer

end CertificateAudit.Ocsp
