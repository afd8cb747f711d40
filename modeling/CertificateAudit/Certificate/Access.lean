import CertificateAudit.Certificate.Basic
import CertificateAudit.Text.Utf8

/-!
The Authority Information Access extension: where to ask about a certificate and where to get
its issuer. The first extension of that kind decides, and in it the first location that is a
URL and has the wanted method.
-/

namespace CertificateAudit

open CertificateAudit.Der CertificateAudit.Text

inductive AccessMethod where
  | ocsp | caIssuers
deriving DecidableEq

namespace AccessMethod

def objectId : AccessMethod → String
  | .ocsp => "1.3.6.1.5.5.7.48.1"
  | .caIssuers => "1.3.6.1.5.5.7.48.2"

def descriptorName : AccessMethod → String
  | .ocsp => "OCSP access descriptor"
  | .caIssuers => "CA Issuers access descriptor"

end AccessMethod

inductive AccessError where
  | noExtension
  | malformed
  | noDescriptor (method : AccessMethod)
deriving DecidableEq

/-- A method with its location; only URLs are kept as text. -/
structure AccessDescription where
  method : List UInt8
  url : Option String
deriving DecidableEq

namespace AccessDescription

/-- The URL in a location, and that the location has one of the known forms. -/
def location? (item : Item) : Option (Option String) :=
  if item.tag.cls ≠ .contextSpecific then none
  else
    match item.tag.number with
    | 0 => (readPrimitive item.content).map fun _ => none
    | 1 | 2 => (Utf8.text? item.content).map fun _ => none
    | 4 => (Name.read item.content).bind fun (_, rest) =>
        if rest.isEmpty then some none else none
    | 6 => (Utf8.text? item.content).map some
    | 3 | 5 | 7 | 8 => some none
    | _ => none

def read (bytes : List UInt8) : Option (AccessDescription × List UInt8) := do
  let (content, rest) ← readContainer 16 bytes
  let (method, behind) ← readPrimitive content
  let (item, _) ← readItem behind
  let url ← location? item
  pure (⟨method, url⟩, rest)

end AccessDescription

def authorityInfoAccessId : List UInt8 := [0x2b, 0x06, 0x01, 0x05, 0x05, 0x07, 0x01, 0x01]

def accessDescriptions? (value : List UInt8) : Option (List AccessDescription) := do
  let (content, _) ← readContainer 16 value
  readAll AccessDescription.read content.length content

/-- The URL that a certificate gives for a method. -/
def Certificate.accessUrl (certificate : Certificate) (method : AccessMethod) :
    Except AccessError String :=
  match certificate.extensions.find? fun ext => ext.objectId == authorityInfoAccessId with
  | none => .error .noExtension
  | some extension =>
      match accessDescriptions? extension.value with
      | none => .error .malformed
      | some descriptions =>
          let wanted := descriptions.filter fun description =>
            ObjectId.text description.method == method.objectId
          match wanted.findSome? AccessDescription.url with
          | some url => .ok url
          | none => .error (.noDescriptor method)

end CertificateAudit
