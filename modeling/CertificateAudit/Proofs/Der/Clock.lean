import CertificateAudit.Der.Clock
import CertificateAudit.Proofs.Calendar.Stamp

/-!
Times as they stand in encoded values: a written moment is a time with a four-digit year.
-/

namespace CertificateAudit.Der.Clock

open CertificateAudit.Calendar CertificateAudit.Text

theorem twoDigits?_padded {n : Nat} (short : n < 100) (rest : List UInt8) :
    twoDigits? (asciiBytes (Decimal.padded 2 n) ++ rest) = some (n, rest) := by
  have digit : ∀ k < 10, digit? (UInt8.ofNat (Nat.digitChar k).toNat) = some k := by decide
  have tens := digit (n / 10) (by omega)
  have ones := digit (n % 10) (by omega)
  have value : n / 10 * 10 + n % 10 = n := by omega
  rw [Decimal.padded_two short]
  simp [asciiBytes, twoDigits?, tens, ones, value]

theorem seconds?_padded {n : Nat} (short : n < 100) (rest : List UInt8) :
    seconds? (asciiBytes (Decimal.padded 2 n) ++ rest) = some (n, rest) := by
  have enough : ¬ (asciiBytes (Decimal.padded 2 n) ++ rest).length < 2 := by
    rw [Decimal.padded_two short]
    simp [asciiBytes]
  rw [seconds?, if_neg enough, twoDigits?_padded short]

theorem afterYear?_padded (year : Nat) {month day hour minute second : Nat}
    (inRange : month ≤ 12 ∧ day ≤ 31 ∧ hour ≤ 23 ∧ minute ≤ 59 ∧ second ≤ 59)
    (rest : List UInt8) :
    afterYear? year (asciiBytes (Decimal.padded 2 month) ++ (asciiBytes (Decimal.padded 2 day) ++
      (asciiBytes (Decimal.padded 2 hour) ++ (asciiBytes (Decimal.padded 2 minute) ++
        (asciiBytes (Decimal.padded 2 second) ++ rest))))) =
      some (⟨year, month, day, hour, minute, second, .unstated⟩, rest) := by
  have nonempty : (asciiBytes (Decimal.padded 2 second) ++ rest).isEmpty = false := by
    rw [Decimal.padded_two (by omega)]
    rfl
  rw [afterYear?, twoDigits?_padded (by omega)]
  simp only [Option.bind_eq_bind, Option.bind_some]
  rw [twoDigits?_padded (by omega)]
  simp only [Option.bind_some]
  rw [twoDigits?_padded (by omega)]
  simp only [Option.bind_some]
  rw [twoDigits?_padded (by omega)]
  simp only [Option.bind_some, nonempty]
  rw [seconds?_padded (by omega)]
  simp [inRange]

/-- A written moment is a time in universal time, unless it is a leap second. -/
theorem ofLongYear?_bytes {stamp : Stamp} (noLeap : stamp.moment.second ≤ 59) :
    ofLongYear? stamp.bytes = some {
      year := stamp.moment.date.year.toNat
      month := stamp.moment.date.month
      day := stamp.moment.date.day
      hour := stamp.moment.hour
      minute := stamp.moment.minute
      second := stamp.moment.second
      zone := .universal } := by
  obtain ⟨⟨_, month⟩, ⟨_, day⟩⟩ := stamp.moment.date.month_day_le
  obtain ⟨hour, minute, _⟩ := stamp.moment.timeOfDay
  obtain ⟨positive, fourDigits⟩ := stamp.fourDigits
  have year : stamp.moment.date.year.toNat / 100 * 100 + stamp.moment.date.year.toNat % 100 =
      stamp.moment.date.year.toNat := Nat.div_add_mod' _ _
  have zone : asciiBytes ['Z'] = [0x5a] := rfl
  have digits : Decimal.padded 4 stamp.moment.date.year.toNat =
      Decimal.padded 2 (stamp.moment.date.year.toNat / 100) ++
        Decimal.padded 2 (stamp.moment.date.year.toNat % 100) :=
    Decimal.padded_add_two (by decide) _
  simp only [Stamp.bytes, Stamp.digits, digits, asciiBytes_append, List.append_assoc, zone]
  rw [ofLongYear?, twoDigits?_padded (by omega)]
  simp only [Option.bind_eq_bind, Option.bind_some]
  rw [twoDigits?_padded (by omega)]
  simp only [Option.bind_some]
  rw [afterYear?_padded _ ⟨month, day, hour, minute, noLeap⟩, year]
  rfl

end CertificateAudit.Der.Clock
