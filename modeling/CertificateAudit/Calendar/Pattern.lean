import CertificateAudit.Calendar.Date
import CertificateAudit.Text.Blank

/-!
Reading dates and times by a pattern. A pattern is a list of items, each of which takes
characters from the front of the text; numbers may be shorter than their field and may follow
blanks. The first item that fails decides the error, text left over comes next, and last a
day that does not exist.
-/

namespace CertificateAudit.Calendar

open CertificateAudit.Text

inductive Field where
  | year | month | day | hour | minute | second
deriving DecidableEq

inductive Item where
  /-- A number, after any blanks. -/
  | number (field : Field)
  | literal (c : Char)
  | blanks
  /-- Nothing, or a point and at least one digit. -/
  | fraction
deriving DecidableEq

abbrev Pattern := List Item

inductive PatternError where
  | endOfText | badCharacter | outOfRange | trailingText
deriving DecidableEq

def PatternError.message : PatternError → String
  | .endOfText => "premature end of input"
  | .badCharacter => "input contains invalid characters"
  | .outOfRange => "input is out of range"
  | .trailingText => "trailing input"

structure Parts where
  year : Int := 0
  month : Nat := 0
  day : Nat := 0
  hour : Nat := 0
  minute : Nat := 0
  second : Nat := 0
deriving DecidableEq

/-- The largest number of digits may be bounded; the value has to fit 63 bits. -/
def readDigits (width : Option Nat) (text : List Char) :
    Except PatternError (Nat × List Char) :=
  let available := match width with
    | some width => text.take width
    | none => text
  let digits := available.takeWhile Decimal.isDigit
  match text, digits with
  | [], _ => .error .endOfText
  | _ :: _, [] => .error .badCharacter
  | _ :: _, _ :: _ =>
      if Decimal.value digits ≤ 9223372036854775807 then
        .ok (Decimal.value digits, text.drop digits.length)
      else .error .outOfRange

/-- A year is at most four digits, or a sign and any number of them, within 32 bits. -/
def readYear (text : List Char) : Except PatternError (Int × List Char) := do
  let (year, rest) ← match text with
    | '-' :: digits => do
        let (n, rest) ← readDigits none digits
        pure (-(n : Int), rest)
    | '+' :: digits => do
        let (n, rest) ← readDigits none digits
        pure ((n : Int), rest)
    | digits => do
        let (n, rest) ← readDigits (some 4) digits
        pure ((n : Int), rest)
  if -2147483648 ≤ year ∧ year ≤ 2147483647 then pure (year, rest) else throw .outOfRange

def readTwoDigits (lowest highest : Nat) (text : List Char) :
    Except PatternError (Nat × List Char) := do
  let (n, rest) ← readDigits (some 2) text
  if lowest ≤ n ∧ n ≤ highest then pure (n, rest) else throw .outOfRange

def Field.read (field : Field) (text : List Char) (parts : Parts) :
    Except PatternError (Parts × List Char) := do
  let text := trimStart text
  match field with
  | .year =>
      let (n, rest) ← readYear text
      pure ({ parts with year := n }, rest)
  | .month =>
      let (n, rest) ← readTwoDigits 1 12 text
      pure ({ parts with month := n }, rest)
  | .day =>
      let (n, rest) ← readTwoDigits 1 31 text
      pure ({ parts with day := n }, rest)
  | .hour =>
      let (n, rest) ← readTwoDigits 0 23 text
      pure ({ parts with hour := n }, rest)
  | .minute =>
      let (n, rest) ← readTwoDigits 0 59 text
      pure ({ parts with minute := n }, rest)
  | .second =>
      let (n, rest) ← readTwoDigits 0 60 text
      pure ({ parts with second := n }, rest)

def Item.read (item : Item) (text : List Char) (parts : Parts) :
    Except PatternError (Parts × List Char) :=
  match item, text with
  | .number field, text => field.read text parts
  | .literal _, [] => .error .endOfText
  | .literal expected, c :: rest =>
      if c = expected then .ok (parts, rest) else .error .badCharacter
  | .blanks, text => .ok (parts, trimStart text)
  | .fraction, '.' :: rest => do
      let _ ← readDigits (some 9) rest
      pure (parts, rest.dropWhile Decimal.isDigit)
  | .fraction, text => .ok (parts, text)

/-- Read the items one after the other; the text has to end with the last. -/
def Pattern.read (text : List Char) (parts : Parts) :
    Pattern → Except PatternError Parts
  | [] => if text.isEmpty then .ok parts else .error .trailingText
  | item :: items => do
      let (parts, rest) ← item.read text parts
      Pattern.read rest parts items

def Parts.date (parts : Parts) : Except PatternError Date :=
  match Date.ofParts? parts.year parts.month parts.day with
  | some date => .ok date
  | none => .error .outOfRange

def Parts.moment (parts : Parts) : Except PatternError Moment := do
  let date ← parts.date
  match Moment.ofParts? date parts.hour parts.minute parts.second with
  | some moment => .ok moment
  | none => .error .outOfRange

def Pattern.readDate (pattern : Pattern) (text : List Char) : Except PatternError Date := do
  (← pattern.read text {}).date

def Pattern.readMoment (pattern : Pattern) (text : List Char) :
    Except PatternError Moment := do
  (← pattern.read text {}).moment

namespace Pattern

def day : Pattern :=
  [.number .year, .literal '-', .number .month, .literal '-', .number .day]

def timeOfDay : Pattern :=
  [.number .hour, .literal ':', .number .minute, .literal ':', .number .second]

def dayAndTime : Pattern :=
  day ++ .literal 'T' :: timeOfDay

def dayBlankTime : Pattern :=
  day ++ .blanks :: timeOfDay

def dayAndTimeFraction : Pattern :=
  dayAndTime ++ [.fraction]

def compact : Pattern :=
  [.number .year, .number .month, .number .day,
    .number .hour, .number .minute, .number .second]

end Pattern

def auditDateMessage (error : PatternError) : String :=
  "expected a date in YYYY-MM-DD format (" ++ error.message ++ ")"

def readAuditDate (text : String) : Except PatternError Date :=
  Pattern.day.readDate text.toList

/-- The patterns of a time stamp in a log listing, in the order they are tried. -/
def timeStampPatterns : List Pattern :=
  [Pattern.dayAndTime, Pattern.dayBlankTime, Pattern.dayAndTimeFraction]

/-- The day of a time stamp in a log listing, by the first pattern that fits. -/
def timeStampDate? (text : String) : Option Date :=
  timeStampPatterns.findSome? fun pattern =>
    match pattern.readMoment text.toList with
    | .ok moment => some moment.date
    | .error _ => none

end CertificateAudit.Calendar
