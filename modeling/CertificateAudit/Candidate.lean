import CertificateAudit.Calendar.Pattern
import CertificateAudit.Json.Reader
import CertificateAudit.Text.Blank

/-!
Candidates: certificates as a log lists them. `Candidate.readListing` reads the answer to a
search; `Candidate.isValidOn` and `Candidate.inWindow` pick those that are valid on a date.
-/

namespace CertificateAudit

open CertificateAudit.Calendar CertificateAudit.Text

structure Candidate where
  id : Int
  notBefore : Date
  notAfter : Date
  commonName : Option String
  issuerName : Option String
  serialNumber : Option String
deriving DecidableEq

namespace Candidate

def isValidOn (candidate : Candidate) (date : Date) : Bool :=
  candidate.notBefore ≤ date && date ≤ candidate.notAfter

def inWindow (candidates : List Candidate) (date : Date) : List Candidate :=
  candidates.filter fun candidate => candidate.isValidOn date

theorem inWindow_eq (candidates : List Candidate) (date : Date) :
    inWindow candidates date = candidates.filter fun candidate =>
      candidate.notBefore ≤ date ∧ date ≤ candidate.notAfter := by
  simp [inWindow, isValidOn]

end Candidate

structure Listing where
  id : Int
  issuerName : Option String
  commonName : Option String
  notBefore : Option String
  notAfter : Option String
  serialNumber : Option String
deriving DecidableEq

namespace Listing

/-- The number of a literal without fraction and exponent, within 64 bits and not minus zero. -/
def idOfSpelling? (spelling : List Char) : Option Int :=
  let (negative, digits) := match spelling with
    | '-' :: digits => (true, digits)
    | digits => (false, digits)
  if digits.isEmpty || !digits.all Decimal.isDigit then none
  else
    let n := Decimal.value digits
    if negative then
      if 1 ≤ n ∧ n ≤ 9223372036854775808 then some (-(n : Int)) else none
    else if n ≤ 9223372036854775807 then some (n : Int)
    else none

def id? : Json → Option Int
  | .number spelling => idOfSpelling? spelling
  | _ => none

def text? : Json → Option (Option String)
  | .null => some none
  | .string (some text) => some (some text)
  | _ => none

inductive Key where
  | id | issuerName | commonName | notBefore | notAfter | serialNumber
deriving DecidableEq

def Key.ofName? (name : String) : Option Key :=
  match name with
  | "id" => some .id
  | "issuer_name" => some .issuerName
  | "common_name" => some .commonName
  | "not_before" => some .notBefore
  | "not_after" => some .notAfter
  | "serial_number" => some .serialNumber
  | _ => none

/-- The known members of an object, if every member has a readable name. -/
def knownMembers? : List (Option String × Json) → Option (List (Key × Json))
  | [] => some []
  | (none, _) :: _ => none
  | (some name, value) :: members => do
      let known ← knownMembers? members
      match Key.ofName? name with
      | some key => pure ((key, value) :: known)
      | none => pure known

def textMember? (key : Key) (known : List (Key × Json)) : Option (Option String) :=
  match known.filter fun member => member.1 == key with
  | [] => some none
  | [(_, value)] => text? value
  | _ => none

def idMember? (known : List (Key × Json)) : Option Int :=
  match known.filter fun member => member.1 == .id with
  | [(_, value)] => id? value
  | _ => none

/-- Read an entry: an object, or the six fields in a fixed order. -/
def ofJson? : Json → Option Listing
  | .object members => do
      let known ← knownMembers? members
      let id ← idMember? known
      let issuerName ← textMember? .issuerName known
      let commonName ← textMember? .commonName known
      let notBefore ← textMember? .notBefore known
      let notAfter ← textMember? .notAfter known
      let serialNumber ← textMember? .serialNumber known
      pure { id, issuerName, commonName, notBefore, notAfter, serialNumber }
  | .array [id, issuerName, commonName, notBefore, notAfter, serialNumber] => do
      let id ← id? id
      let issuerName ← text? issuerName
      let commonName ← text? commonName
      let notBefore ← text? notBefore
      let notAfter ← text? notAfter
      let serialNumber ← text? serialNumber
      pure { id, issuerName, commonName, notBefore, notAfter, serialNumber }
  | _ => none

/-- The candidate of an entry, if both its dates are there and readable. -/
def candidate? (listing : Listing) : Option Candidate := do
  let notBefore ← timeStampDate? (← listing.notBefore)
  let notAfter ← timeStampDate? (← listing.notAfter)
  pure {
    id := listing.id
    notBefore
    notAfter
    commonName := listing.commonName
    issuerName := listing.issuerName
    serialNumber := listing.serialNumber }

def read? (text : String) : Option (List Listing) :=
  match Json.read? text with
  | some (.array items) => items.mapM ofJson?
  | _ => none

end Listing

/-- The candidates in the answer to a search. A blank text is an empty list; an entry without
usable dates is left out; any other fault spoils the whole. -/
def Candidate.readListing (text : String) : Option (List Candidate) :=
  let trimmed := trim text.toList
  if trimmed.isEmpty || trimmed == ['[', ']'] then some []
  else (Listing.read? text).map fun listings => listings.filterMap Listing.candidate?

end CertificateAudit
