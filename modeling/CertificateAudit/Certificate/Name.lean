import CertificateAudit.Certificate.Container
import CertificateAudit.Der.Charset
import CertificateAudit.Der.ObjectId

/-!
Distinguished names: a list of sets of attributes, each a type and a value, and their text.
-/

namespace CertificateAudit

open CertificateAudit.Text

structure Attribute where
  type : List UInt8
  value : Der.Item
deriving DecidableEq

/-- A distinguished name: its bytes as they stand and its sets of attributes. -/
structure Name where
  raw : List UInt8
  parts : List (List Attribute)
deriving DecidableEq

def Attribute.shortNames : List (List Nat × String) := [
  ([2, 5, 4, 3], "CN"), ([2, 5, 4, 6], "C"), ([2, 5, 4, 7], "L"), ([2, 5, 4, 8], "ST"),
  ([2, 5, 4, 10], "O"), ([2, 5, 4, 11], "OU"), ([0, 9, 2342, 19200300, 100, 1, 25], "DC"),
  ([1, 2, 840, 113549, 1, 9, 1], "Email"),
  ([2, 5, 4, 0], "objectClass"), ([2, 5, 4, 4], "surname"), ([2, 5, 4, 5], "serialNumber"),
  ([2, 5, 4, 9], "streetAddress"), ([2, 5, 4, 12], "title"), ([2, 5, 4, 13], "description"),
  ([2, 5, 4, 14], "searchGuide"), ([2, 5, 4, 15], "businessCategory"),
  ([2, 5, 4, 16], "postalAddress"), ([2, 5, 4, 17], "postalCode"), ([2, 5, 4, 41], "name"),
  ([2, 5, 4, 42], "givenName"), ([2, 5, 4, 43], "initials"),
  ([2, 5, 4, 44], "generationQualifier"), ([2, 5, 4, 45], "uniqueIdentifier"),
  ([2, 5, 4, 46], "dnQualifier"), ([0, 9, 2342, 19200300, 100, 1, 1], "uid"),
  ([1, 2, 840, 113549, 1, 9, 2], "unstructuredName"),
  ([1, 2, 840, 113549, 1, 9, 3], "contentType"),
  ([1, 2, 840, 113549, 1, 9, 4], "id-messageDigest"),
  ([1, 2, 840, 113549, 1, 9, 5], "signing-time"),
  ([1, 2, 840, 113549, 1, 9, 7], "challengePassword"),
  ([1, 2, 840, 113549, 1, 9, 14], "extensionRequest"),
  ([1, 2, 840, 113549, 1, 9, 15], "smimeCapabilities"),
  ([1, 2, 840, 113549, 1, 9, 20], "friendlyName"),
  ([1, 3, 6, 1, 4, 1, 311, 60, 2, 1, 1], "msJurisdictionLocality"),
  ([1, 3, 6, 1, 4, 1, 311, 60, 2, 1, 2], "msJurisdictionStateOrProvince"),
  ([1, 3, 6, 1, 4, 1, 311, 60, 2, 1, 3], "msJurisdictionCountry"),
  ([2, 5, 29, 1], "obsoleteAuthorityKeyIdentifier"), ([2, 5, 29, 2], "obsoleteKeyAttributes"),
  ([2, 5, 29, 3], "obsoleteCertificatePolicies"),
  ([2, 5, 29, 4], "obsoleteKeyUsageRestriction"), ([2, 5, 29, 5], "obsoletePolicyMapping"),
  ([2, 5, 29, 6], "obsoleteSubtreesConstraint"), ([2, 5, 29, 7], "obsoleteSubjectAltName"),
  ([2, 5, 29, 8], "obsoleteIssuerAltName"),
  ([2, 5, 29, 9], "subjectDirectoryAttributes"), ([2, 5, 29, 10], "basicConstraints"),
  ([2, 5, 29, 11], "nameConstraints"), ([2, 5, 29, 12], "policyConstraints"),
  ([2, 5, 29, 13], "basicConstraints"), ([2, 5, 29, 14], "subjectKeyIdentifier"),
  ([2, 5, 29, 15], "keyUsage"), ([2, 5, 29, 16], "privateKeyUsagePeriod"),
  ([2, 5, 29, 17], "subjectAltName"), ([2, 5, 29, 18], "issuerAltName"),
  ([2, 5, 29, 19], "basicConstraints"), ([2, 5, 29, 20], "crlNumber"),
  ([2, 5, 29, 21], "reasonCode"), ([2, 5, 29, 24], "invalidityDate"),
  ([2, 5, 29, 27], "deltaCRLIndicator"), ([2, 5, 29, 28], "issuingDistributionPoint"),
  ([2, 5, 29, 29], "certificateIssuer"), ([2, 5, 29, 30], "nameConstraints"),
  ([2, 5, 29, 31], "crlDistributionPoints"), ([2, 5, 29, 32], "certificatePolicies"),
  ([2, 5, 29, 33], "policyMappings"), ([2, 5, 29, 35], "authorityKeyIdentifier"),
  ([2, 5, 29, 36], "policyConstraints"), ([2, 5, 29, 37], "extendedKeyUsage"),
  ([2, 5, 29, 46], "freshestCRL"), ([2, 5, 29, 54], "inhibitAnyPolicy"),
  ([1, 3, 6, 1, 5, 5, 7, 1, 1], "authorityInfoAccess"),
  ([1, 3, 6, 1, 5, 5, 7, 1, 11], "subjectInfoAccess")]

namespace Attribute

def typeText (type : List UInt8) : String :=
  match shortNames.find? fun entry => Der.ObjectId.encode entry.1 == type with
  | some (_, name) => name
  | none => "OID(" ++ Der.ObjectId.text type ++ ")"

/-- The text of a value: string types as they read, all others as bytes in hexadecimal. -/
def valueText? (value : Der.Item) : Option (List Char) :=
  match value.tag.number with
  | 7 | 12 | 18 | 19 | 20 | 21 | 22 | 25 | 26 | 27 => Utf8.decode? value.content
  | 30 => Der.Charset.twoByteText? value.content
  | _ => some (Hex.upper value.content)

def text? (attr : Attribute) : Option String :=
  (valueText? attr.value).map fun value =>
    typeText attr.type ++ "=" ++ String.ofList value

def read (bytes : List UInt8) : Option (Attribute × List UInt8) := do
  let (content, rest) ← Der.readContainer 16 bytes
  let (type, behind) ← Der.readPrimitive content
  let (value, _) ← Der.readItem behind
  pure (⟨type, value⟩, rest)

end Attribute

namespace Name

def readPart (bytes : List UInt8) : Option (List Attribute × List UInt8) := do
  let (content, rest) ← Der.readContainer 17 bytes
  match Der.readMany Attribute.read content.length content with
  | ([], _) => none
  | (attributes, _) => some (attributes, rest)

/-- Read a name. The first part that cannot be read ends the list of parts. -/
def read (bytes : List UInt8) : Option (Name × List UInt8) := do
  let (content, rest) ← Der.readContainer 16 bytes
  let (parts, unread) := Der.readMany readPart content.length content
  pure (⟨bytes.take (bytes.length - rest.length - unread.length), parts⟩, rest)

/-- The text of a name: parts with commas between, and attributes of one part with plus signs
between. One value that is no text spoils the whole. -/
def text (name : Name) : String :=
  match name.parts.mapM fun part => part.mapM Attribute.text? with
  | some parts => joinWith ", " (parts.map (joinWith " + "))
  | none => "<X509Error: Invalid X.509 name>"

end Name

end CertificateAudit
