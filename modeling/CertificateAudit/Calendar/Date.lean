import CertificateAudit.Text.Decimal

/-!
Days of the proleptic Gregorian calendar and points in time on them. A `Date` exists only if
its day does; dates are compared by `Date.rank` and written in one way by `Date.text`.
-/

namespace CertificateAudit.Calendar

open CertificateAudit.Text

def minYear : Int := -262143

def maxYear : Int := 262142

def isLeap (year : Int) : Bool :=
  year % 4 == 0 && (year % 100 != 0 || year % 400 == 0)

def daysInMonth (year : Int) (month : Nat) : Nat :=
  match month with
  | 2 => if isLeap year then 29 else 28
  | 4 | 6 | 9 | 11 => 30
  | 1 | 3 | 5 | 7 | 8 | 10 | 12 => 31
  | _ => 0

structure Date where
  year : Int
  month : Nat
  day : Nat
  yearInRange : minYear ≤ year ∧ year ≤ maxYear
  dayInMonth : 1 ≤ day ∧ day ≤ daysInMonth year month
deriving DecidableEq

namespace Date

def ofParts? (year : Int) (month day : Nat) : Option Date :=
  if inRange : minYear ≤ year ∧ year ≤ maxYear then
    if inMonth : 1 ≤ day ∧ day ≤ daysInMonth year month then
      some ⟨year, month, day, inRange, inMonth⟩
    else none
  else none

/-- A number that grows with the date: every month is counted as 31 days. -/
def rank (date : Date) : Int :=
  (date.year * 12 + date.month) * 31 + date.day

instance : LT Date := ⟨fun a b => a.rank < b.rank⟩

instance : LE Date := ⟨fun a b => a.rank ≤ b.rank⟩

instance (a b : Date) : Decidable (a < b) :=
  inferInstanceAs (Decidable (a.rank < b.rank))

instance (a b : Date) : Decidable (a ≤ b) :=
  inferInstanceAs (Decidable (a.rank ≤ b.rank))

/-- A year has four digits; one outside 0 to 9999 has a sign and at least four. -/
def yearText (year : Int) : List Char :=
  if 0 ≤ year ∧ year ≤ 9999 then Decimal.padded 4 year.toNat
  else (if year < 0 then '-' else '+') :: Decimal.padded 4 year.natAbs

def chars (date : Date) : List Char :=
  yearText date.year ++ '-' :: Decimal.padded 2 date.month ++ '-' :: Decimal.padded 2 date.day

def text (date : Date) : String :=
  String.ofList date.chars

end Date

/-- A second of a day; second 60 is a leap second and may end any minute. -/
structure Moment where
  date : Date
  hour : Nat
  minute : Nat
  second : Nat
  timeOfDay : hour ≤ 23 ∧ minute ≤ 59 ∧ second ≤ 60
deriving DecidableEq

namespace Moment

def ofParts? (date : Date) (hour minute second : Nat) : Option Moment :=
  if inRange : hour ≤ 23 ∧ minute ≤ 59 ∧ second ≤ 60 then
    some ⟨date, hour, minute, second, inRange⟩
  else none

def text (moment : Moment) : String :=
  String.ofList (moment.date.chars ++ 'T' :: Decimal.padded 2 moment.hour ++
    ':' :: Decimal.padded 2 moment.minute ++ ':' :: Decimal.padded 2 moment.second)

end Moment

end CertificateAudit.Calendar
