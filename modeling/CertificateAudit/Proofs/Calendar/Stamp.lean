import CertificateAudit.Calendar.Pattern
import CertificateAudit.Proofs.Text.Ascii
import CertificateAudit.Proofs.Text.Decimal
import Mathlib.Data.List.TakeWhile

/-!
Moments written without separators, and the compact pattern reading them back.
-/

namespace CertificateAudit.Calendar

open CertificateAudit.Text

/-- A moment in a year of at most four digits. -/
structure Stamp where
  moment : Moment
  fourDigits : 0 ≤ moment.date.year ∧ moment.date.year ≤ 9999

namespace Stamp

/-- The fourteen digits of a moment: year, month, day, hour, minute and second. -/
def digits (stamp : Stamp) : List Char :=
  Decimal.padded 4 stamp.moment.date.year.toNat ++ (Decimal.padded 2 stamp.moment.date.month ++
    (Decimal.padded 2 stamp.moment.date.day ++ (Decimal.padded 2 stamp.moment.hour ++
      (Decimal.padded 2 stamp.moment.minute ++ Decimal.padded 2 stamp.moment.second))))

/-- The written moment: its digits and a Z for universal time. -/
def bytes (stamp : Stamp) : List UInt8 :=
  asciiBytes (stamp.digits ++ ['Z'])

end Stamp

theorem Date.month_day_le (date : Date) :
    (1 ≤ date.month ∧ date.month ≤ 12) ∧ 1 ≤ date.day ∧ date.day ≤ 31 := by
  have inMonth := date.dayInMonth
  unfold daysInMonth at inMonth
  split at inMonth
  · split at inMonth <;> omega
  all_goals omega

theorem Date.ofParts?_self (date : Date) :
    Date.ofParts? date.year date.month date.day = some date := by
  rw [Date.ofParts?, dif_pos date.yearInRange, dif_pos date.dayInMonth]

theorem Moment.ofParts?_self (moment : Moment) :
    Moment.ofParts? moment.date moment.hour moment.minute moment.second = some moment := by
  rw [Moment.ofParts?, dif_pos moment.timeOfDay]

/-- The numbers of a moment. -/
def Moment.parts (moment : Moment) : Parts where
  year := moment.date.year
  month := moment.date.month
  day := moment.date.day
  hour := moment.hour
  minute := moment.minute
  second := moment.second

theorem Moment.moment_parts (moment : Moment) : moment.parts.moment = .ok moment := by
  simp only [Parts.moment, Parts.date, parts, Date.ofParts?_self, bind, Except.bind,
    ofParts?_self]

theorem isBlank_of_isDigit {c : Char} (digit : Decimal.isDigit c = true) : isBlank c = false := by
  obtain ⟨lowest, highest⟩ := Decimal.toNat_of_isDigit digit
  have noneBlank : ∀ n ≤ '9'.toNat, '0'.toNat ≤ n → isBlank (Char.ofNat n) = false := by decide
  have notBlank := noneBlank c.toNat highest lowest
  rwa [Char.ofNat_toNat] at notBlank

theorem exists_padded_cons {width n : Nat} (positive : 0 < width) (short : n < 10 ^ width) :
    ∃ first others, Decimal.padded width n = first :: others ∧ Decimal.isDigit first = true := by
  have count := Decimal.length_padded positive short
  cases spelled : Decimal.padded width n with
  | nil => simp [spelled] at count; omega
  | cons first others =>
      have membership : first ∈ Decimal.padded width n := by simp [spelled]
      exact ⟨first, others, rfl, Decimal.isDigit_of_mem_padded membership⟩

theorem trimStart_padded {width n : Nat} (positive : 0 < width) (short : n < 10 ^ width)
    (rest : List Char) :
    trimStart (Decimal.padded width n ++ rest) = Decimal.padded width n ++ rest := by
  obtain ⟨first, others, spelled, digit⟩ := exists_padded_cons positive short
  rw [spelled, List.cons_append, trimStart]
  exact List.dropWhile_cons_of_neg (by simp [isBlank_of_isDigit digit])

theorem readDigits_padded {width n : Nat} (positive : 0 < width) (short : n < 10 ^ width)
    (small : n ≤ 9223372036854775807) (rest : List Char) :
    readDigits (some width) (Decimal.padded width n ++ rest) = .ok (n, rest) := by
  have count := Decimal.length_padded positive short
  have available : (Decimal.padded width n ++ rest).take width = Decimal.padded width n := by
    exact List.take_left' count
  have digits : (Decimal.padded width n).takeWhile Decimal.isDigit = Decimal.padded width n := by
    refine List.takeWhile_eq_self_iff.mpr ?_
    exact fun c membership => Decimal.isDigit_of_mem_padded membership
  obtain ⟨first, others, spelled, _⟩ := exists_padded_cons positive short
  have value := Decimal.value_padded width n
  simp only [readDigits, available, digits]
  rw [spelled] at value ⊢
  simp only [List.cons_append, value, small, if_true, Except.ok.injEq, Prod.mk.injEq, true_and]
  rw [← List.cons_append, List.drop_left]

theorem readTwoDigits_padded {lowest highest n : Nat} (short : n < 100)
    (inRange : lowest ≤ n ∧ n ≤ highest) (rest : List Char) :
    readTwoDigits lowest highest (Decimal.padded 2 n ++ rest) = .ok (n, rest) := by
  have read := @readDigits_padded 2 n (by decide) short (by omega) rest
  rw [readTwoDigits, read]
  simp [bind, Except.bind, inRange, pure, Except.pure]

theorem readYear_padded {n : Nat} (short : n < 10000) (rest : List Char) :
    readYear (Decimal.padded 4 n ++ rest) = .ok ((n : Int), rest) := by
  have read := @readDigits_padded 4 n (by decide) short (by omega) rest
  obtain ⟨first, others, spelled, digit⟩ := @exists_padded_cons 4 n (by decide) short
  have inRange : (-2147483648 : Int) ≤ n ∧ (n : Int) ≤ 2147483647 := by omega
  rw [spelled, List.cons_append] at read ⊢
  have unsigned : first ≠ '-' ∧ first ≠ '+' := by
    refine ⟨?_, ?_⟩ <;>
      · rintro rfl
        simp [Decimal.isDigit] at digit
  unfold readYear
  split
  next same => exact absurd (List.cons.inj same).1 unsigned.1
  next same => exact absurd (List.cons.inj same).1 unsigned.2
  · simp [read, bind, Except.bind, inRange, pure, Except.pure]

namespace Field

def width : Field → Nat
  | .year => 4
  | _ => 2

/-- Whether a number can stand in a field. -/
def Allows (n : Nat) : Field → Prop
  | .year => n ≤ 9999
  | .month => 1 ≤ n ∧ n ≤ 12
  | .day => 1 ≤ n ∧ n ≤ 31
  | .hour => n ≤ 23
  | .minute => n ≤ 59
  | .second => n ≤ 60

def put (n : Nat) (parts : Parts) : Field → Parts
  | .year => { parts with year := n }
  | .month => { parts with month := n }
  | .day => { parts with day := n }
  | .hour => { parts with hour := n }
  | .minute => { parts with minute := n }
  | .second => { parts with second := n }

theorem read_padded {field : Field} {n : Nat} (allowed : field.Allows n) (rest : List Char)
    (parts : Parts) :
    field.read (Decimal.padded field.width n ++ rest) parts = .ok (field.put n parts, rest) := by
  have twoDigits : ∀ {lowest highest : Nat} (short : n < 100) (inRange : lowest ≤ n ∧ n ≤ highest),
      readTwoDigits lowest highest (trimStart (Decimal.padded 2 n ++ rest)) = .ok (n, rest) := by
    intro lowest highest short inRange
    rw [trimStart_padded (by decide) short, readTwoDigits_padded short inRange]
  unfold Allows at allowed
  cases field with
  | year =>
      have short : n < 10000 := by simp only at allowed; omega
      have year : readYear (trimStart (Decimal.padded 4 n ++ rest)) = .ok ((n : Int), rest) := by
        rw [trimStart_padded (by decide) short, readYear_padded short]
      simp only [read, width, put, year]
      rfl
  | month =>
      simp only [read, width, put, twoDigits (by omega) allowed]
      rfl
  | day =>
      simp only [read, width, put, twoDigits (by omega) allowed]
      rfl
  | hour =>
      simp only [read, width, put, twoDigits (by omega) ⟨Nat.zero_le n, allowed⟩]
      rfl
  | minute =>
      simp only [read, width, put, twoDigits (by omega) ⟨Nat.zero_le n, allowed⟩]
      rfl
  | second =>
      simp only [read, width, put, twoDigits (by omega) ⟨Nat.zero_le n, allowed⟩]
      rfl

end Field

theorem Pattern.read_padded {field : Field} {n : Nat} (allowed : field.Allows n)
    (rest : List Char) (parts : Parts) (items : Pattern) :
    Pattern.read (Decimal.padded field.width n ++ rest) parts (.number field :: items) =
      Pattern.read rest (field.put n parts) items := by
  simp only [Pattern.read, Item.read, Field.read_padded allowed]
  rfl

namespace Stamp

def parts (stamp : Stamp) : Parts where
  year := stamp.moment.date.year
  month := stamp.moment.date.month
  day := stamp.moment.date.day
  hour := stamp.moment.hour
  minute := stamp.moment.minute
  second := stamp.moment.second

theorem moment_parts (stamp : Stamp) : stamp.parts.moment = .ok stamp.moment :=
  stamp.moment.moment_parts

theorem read_digits (stamp : Stamp) :
    Pattern.read stamp.digits {} Pattern.compact = .ok stamp.parts := by
  obtain ⟨month, day⟩ := stamp.moment.date.month_day_le
  obtain ⟨hour, minute, second⟩ := stamp.moment.timeOfDay
  obtain ⟨positive, fourDigits⟩ := stamp.fourDigits
  have year : Field.year.Allows stamp.moment.date.year.toNat := by
    simp only [Field.Allows]
    omega
  have last := Pattern.read_padded (show Field.second.Allows _ from second) []
    { stamp.parts with second := 0 } []
  rw [List.append_nil] at last
  refine (Pattern.read_padded year _ _ _).trans ?_
  refine (Pattern.read_padded (show Field.month.Allows _ from month) _ _ _).trans ?_
  refine (Pattern.read_padded (show Field.day.Allows _ from day) _ _ _).trans ?_
  refine (Pattern.read_padded (show Field.hour.Allows _ from hour) _ _ _).trans ?_
  refine (Pattern.read_padded (show Field.minute.Allows _ from minute) _ _ _).trans ?_
  have same : (stamp.moment.date.year.toNat : Int) = stamp.moment.date.year :=
    Int.toNat_of_nonneg positive
  simp only [Field.put, same]
  exact last

/-- The compact pattern reads back what was written. -/
theorem readMoment_digits (stamp : Stamp) :
    Pattern.compact.readMoment stamp.digits = .ok stamp.moment := by
  simp only [Pattern.readMoment, read_digits, bind, Except.bind, moment_parts]

theorem isDigit_of_mem_digits {stamp : Stamp} {c : Char} (membership : c ∈ stamp.digits) :
    Decimal.isDigit c = true := by
  simp only [digits, List.mem_append] at membership
  rcases membership with year | month | day | hour | minute | second
  all_goals exact Decimal.isDigit_of_mem_padded ‹_›

theorem length_digits (stamp : Stamp) : stamp.digits.length = 14 := by
  obtain ⟨month, day⟩ := stamp.moment.date.month_day_le
  obtain ⟨hour, minute, second⟩ := stamp.moment.timeOfDay
  obtain ⟨positive, fourDigits⟩ := stamp.fourDigits
  have two : ∀ {n : Nat}, n < 100 → (Decimal.padded 2 n).length = 2 :=
    fun short => Decimal.length_padded (by decide) short
  have year : (Decimal.padded 4 stamp.moment.date.year.toNat).length = 4 :=
    Decimal.length_padded (by decide) (by omega)
  have others := And.intro (@two stamp.moment.date.month (by omega)) (And.intro
    (@two stamp.moment.date.day (by omega)) (And.intro (@two stamp.moment.hour (by omega))
      (And.intro (@two stamp.moment.minute (by omega)) (@two stamp.moment.second (by omega)))))
  simp only [digits, List.length_append, year, others]

theorem isAscii_digits (stamp : Stamp) : IsAscii (stamp.digits ++ ['Z']) := by
  intro c membership
  rcases List.mem_append.mp membership with digit | last
  · have highest := (Decimal.toNat_of_isDigit (isDigit_of_mem_digits digit)).2
    exact Nat.lt_of_le_of_lt highest (by decide)
  · cases List.mem_singleton.mp last
    decide

end Stamp

end CertificateAudit.Calendar
