import CertificateAudit.Calendar.Date
import CertificateAudit.Certificate.Name
import CertificateAudit.Der.Clock

/-!
X.509 certificates: the fields an audit uses. `Certificate.ofDer?` reads a certificate from
the front of a byte string and ignores what is behind it. Signatures are not verified.
-/

namespace CertificateAudit

open CertificateAudit.Der CertificateAudit.Calendar

structure Extension where
  objectId : List UInt8
  value : List UInt8
deriving DecidableEq

/-- The fields of a certificate that an audit uses. The serial number is kept as written. -/
structure Certificate where
  serial : List UInt8
  issuer : Name
  subject : Name
  publicKey : List UInt8
  extensions : List Extension
deriving DecidableEq

namespace Certificate

/-- Whether the value spells an integer that fits 32 bits without a sign. -/
def isVersionNumber (bytes : List UInt8) : Bool :=
  match readItem bytes with
  | none => false
  | some (item, _) =>
      item.tag.number == 2 && !item.constructed &&
      match item.content with
      | [] => false
      | [b] => b < 0x80
      | first :: second :: rest =>
          first < 0x80 && !(first == 0 && second < 0x80) &&
            unsigned (first :: second :: rest) < 4294967296

def skipVersion (bytes : List UInt8) : Option (List UInt8) := do
  if bytes.isEmpty then some bytes
  else
    let (item, rest) ← readItem bytes
    if item.tag.number ≠ 0 then some bytes
    else if item.tag.cls = .contextSpecific ∧ isVersionNumber item.content then some rest
    else none

def skipAlgorithm (bytes : List UInt8) : Option (List UInt8) := do
  let (content, rest) ← readContainer 16 bytes
  let _ ← readPrimitive content
  pure rest

/-- Whether the parts name an instant: the day exists, and an offset lies within 25 hours. -/
def isInstant (clock : Clock) (year : Nat) : Bool :=
  1 ≤ clock.day && clock.day ≤ daysInMonth year clock.month &&
  match clock.zone with
  | .offset _ hours minutes => hours ≤ 25 && minutes ≤ 59
  | _ => true

/-- Read one end of the validity period. Two-digit years from 50 on lie in the last century;
the long form has to end in universal time and may not use a comma. -/
def skipTime (bytes : List UInt8) : Option (List UInt8) := do
  let (item, rest) ← readItem bytes
  if item.tag.number = 23 then
    let clock ← Clock.ofShortYear? item.content
    if isInstant clock (clock.year + if 50 ≤ clock.year then 1900 else 2000) then some rest
    else none
  else if item.tag.number = 24 then
    let clock ← Clock.ofLongYear? item.content
    if item.content.getLast? = some 0x5a ∧ 0x2c ∉ item.content ∧ isInstant clock clock.year then
      some rest
    else none
  else none

def skipValidity (bytes : List UInt8) : Option (List UInt8) := do
  let (content, rest) ← readContainer 16 bytes
  let _ ← skipTime (← skipTime content)
  pure rest

def readPublicKey (bytes : List UInt8) : Option (List UInt8 × List UInt8) := do
  let (content, rest) ← readContainer 16 bytes
  let (key, _) ← readBitString (← skipAlgorithm content)
  pure (key, rest)

def skipUniqueId (number : Nat) (bytes : List UInt8) : Option (List UInt8) := do
  if bytes.isEmpty then some bytes
  else
    let (item, rest) ← readItem bytes
    if item.tag.number ≠ number then some bytes
    else if item.tag.cls = .contextSpecific ∧ item.content ≠ [] then some rest
    else none

def skipCritical (bytes : List UInt8) : List UInt8 :=
  match readOpenItem bytes with
  | some (item, rest) =>
      if item.tag.number = 1 ∧ item.constructed = false ∧ item.content.length = 1 then rest
      else bytes
  | none => bytes

def readExtension (bytes : List UInt8) : Option (Extension × List UInt8) := do
  let (content, rest) ← readContainer 16 bytes
  let (objectId, behind) ← readPrimitive content
  let (item, _) ← readItem (skipCritical behind)
  if item.tag.number = 4 ∧ item.constructed = false then
    some (⟨objectId, item.content⟩, rest)
  else none

/-- Read the extensions, which are the last field: a list that fills the rest. The length
stated in front of the list is not looked at. -/
def readExtensions (bytes : List UInt8) : Option (List Extension) := do
  if bytes.isEmpty then some []
  else
    let (header, rest) ← readHeader bytes
    if header.tag.number = 3 ∧ header.length.isSome then
      let (content, behind) ← readContainer 16 rest
      if behind.isEmpty then readAll readExtension content.length content else none
    else none

def ofBody? (body : List UInt8) : Option Certificate := do
  let rest ← skipVersion body
  let (serial, rest) ← readOpenItem rest
  if serial.tag.number ≠ 2 then none
  else
    let rest ← skipAlgorithm rest
    let (issuer, rest) ← Name.read rest
    let rest ← skipValidity rest
    let (subject, rest) ← Name.read rest
    let (publicKey, rest) ← readPublicKey rest
    let rest ← skipUniqueId 1 rest
    let rest ← skipUniqueId 2 rest
    let extensions ← readExtensions rest
    pure ⟨serial.content, issuer, subject, publicKey, extensions⟩

def ofDer? (bytes : List UInt8) : Option Certificate := do
  let (content, _) ← readContainer 16 bytes
  let (body, rest) ← readContainer 16 content
  let certificate ← ofBody? body
  let _ ← readBitString (← skipAlgorithm rest)
  pure certificate

end Certificate

end CertificateAudit
