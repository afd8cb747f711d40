import CertificateAudit.Der.Number

/-!
The two time types: their digits, fraction and time zone. Both readings look only at ranges;
that the day exists is left to the user of the value.
-/

namespace CertificateAudit.Der

/-- A time zone: none stated, universal time, or an offset east of it in hours and minutes,
whose sign is kept apart. -/
inductive Zone where
  | unstated
  | universal
  | offset (west : Bool) (hours minutes : Nat)
deriving DecidableEq

/-- The parts of a time value as written; the year of a two-digit form is below 100. -/
structure Clock where
  year : Nat
  month : Nat
  day : Nat
  hour : Nat
  minute : Nat
  second : Nat
  zone : Zone
deriving DecidableEq

namespace Clock

def digit? (b : UInt8) : Option Nat :=
  if 0x30 ≤ b ∧ b ≤ 0x39 then some (b.toNat - 0x30) else none

def twoDigits? : List UInt8 → Option (Nat × List UInt8)
  | tens :: ones :: rest => do
      pure ((← digit? tens) * 10 + (← digit? ones), rest)
  | _ => none

def zone? : List UInt8 → Option Zone
  | [0x5a] => some .universal
  | sign :: digits =>
      if sign = 0x2b ∨ sign = 0x2d then do
        let (hours, rest) ← twoDigits? digits
        let (minutes, rest) ← twoDigits? rest
        if rest.isEmpty then some (.offset (sign == 0x2d) hours minutes) else none
      else none
  | [] => none

/-- Read seconds if at least two bytes are left; they have to be digits then. -/
def seconds? (bytes : List UInt8) : Option (Nat × List UInt8) :=
  if bytes.length < 2 then some (0, bytes) else twoDigits? bytes

def afterYear? (year : Nat) (bytes : List UInt8) : Option (Clock × List UInt8) := do
  let (month, rest) ← twoDigits? bytes
  let (day, rest) ← twoDigits? rest
  let (hour, rest) ← twoDigits? rest
  let (minute, rest) ← twoDigits? rest
  if rest.isEmpty then none
  else
    let (second, rest) ← seconds? rest
    if month ≤ 12 ∧ day ≤ 31 ∧ hour ≤ 23 ∧ minute ≤ 59 ∧ second ≤ 59 then
      some (⟨year, month, day, hour, minute, second, .unstated⟩, rest)
    else none

def ofShortYear? (bytes : List UInt8) : Option Clock := do
  let (year, rest) ← twoDigits? bytes
  let (clock, rest) ← afterYear? year rest
  let zone ← zone? rest
  pure { clock with zone }

/-- Pass over the digits of a fraction: at most four, and the zone or the end behind them. -/
def skipFraction : (room : Nat) → List UInt8 → Option (List UInt8)
  | _, [] => some []
  | 0, _ :: _ => none
  | room + 1, b :: rest =>
      if 0x30 ≤ b ∧ b ≤ 0x39 then skipFraction room rest
      else if b = 0x5a ∨ b = 0x2b ∨ b = 0x2d then some (b :: rest)
      else none

def fraction? : List UInt8 → Option (List UInt8)
  | [] => some []
  | b :: rest =>
      if b = 0x2e ∨ b = 0x2c then
        if rest.isEmpty then none else skipFraction 4 rest
      else some (b :: rest)

def ofLongYear? (bytes : List UInt8) : Option Clock := do
  let (century, rest) ← twoDigits? bytes
  let (year, rest) ← twoDigits? rest
  let (clock, rest) ← afterYear? (century * 100 + year) rest
  let rest ← fraction? rest
  if rest.isEmpty then some clock
  else
    let zone ← zone? rest
    pure { clock with zone }

end Clock

end CertificateAudit.Der
