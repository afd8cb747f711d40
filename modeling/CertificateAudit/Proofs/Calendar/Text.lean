import CertificateAudit.Proofs.Calendar.Stamp

/-!
A date is read back from its text, whichever year it lies in (`readAuditDate_text`): years
from 0 to 9999 are written with four digits, all others with a sign and as many as they need.
-/

namespace CertificateAudit.Calendar

open CertificateAudit.Text

theorem padded_ne_nil (width n : Nat) : Decimal.padded width n ≠ [] := by
  intro empty
  exact Nat.toDigits_ne_nil (List.append_eq_nil_iff.mp empty).2

/-- Without a width digits are read up to the first character that is none. -/
theorem readDigits_none_padded {width n : Nat} (small : n ≤ 9223372036854775807) {c : Char}
    (stops : Decimal.isDigit c = false) (rest : List Char) :
    readDigits none (Decimal.padded width n ++ c :: rest) = .ok (n, c :: rest) := by
  have digits : (Decimal.padded width n ++ c :: rest).takeWhile Decimal.isDigit =
      Decimal.padded width n := by
    rw [List.takeWhile_append_of_pos fun _ membership => Decimal.isDigit_of_mem_padded membership,
      List.takeWhile_cons_of_neg (by simp [stops]), List.append_nil]
  obtain ⟨first, others, spelled⟩ := List.exists_cons_of_ne_nil (padded_ne_nil width n)
  have value := Decimal.value_padded width n
  simp only [readDigits, digits]
  rw [spelled] at value ⊢
  simp only [List.cons_append, value, small, if_true, Except.ok.injEq, Prod.mk.injEq, true_and]
  rw [← List.cons_append, List.drop_left]

theorem readYear_yearText {year : Int} (inRange : minYear ≤ year ∧ year ≤ maxYear)
    (rest : List Char) :
    readYear (Date.yearText year ++ '-' :: rest) = .ok (year, '-' :: rest) := by
  obtain ⟨lowest, highest⟩ := inRange
  unfold minYear at lowest
  unfold maxYear at highest
  by_cases plain : 0 ≤ year ∧ year ≤ 9999
  · rw [Date.yearText, if_pos plain, readYear_padded (by omega), Int.toNat_of_nonneg plain.1]
  · have read := @readDigits_none_padded 4 year.natAbs (by omega) '-' (by decide) rest
    have allowed : (-2147483648 : Int) ≤ year ∧ year ≤ 2147483647 := by omega
    rw [Date.yearText, if_neg plain]
    by_cases negative : year < 0
    · have same : -(year.natAbs : Int) = year := by omega
      rw [if_pos negative, List.cons_append]
      simp only [readYear, read, bind, Except.bind, pure, Except.pure, same, if_pos allowed]
    · have same : (year.natAbs : Int) = year := by omega
      rw [if_neg negative, List.cons_append]
      simp only [readYear, read, bind, Except.bind, pure, Except.pure, same, if_pos allowed]

theorem trimStart_yearText (year : Int) (rest : List Char) :
    trimStart (Date.yearText year ++ rest) = Date.yearText year ++ rest := by
  unfold Date.yearText
  split
  case isTrue plain => exact trimStart_padded (by decide) (by omega) rest
  case isFalse => split <;> exact List.dropWhile_cons_of_neg (by decide)

theorem Pattern.read_literal (c : Char) (rest : List Char) (parts : Parts) (items : Pattern) :
    Pattern.read (c :: rest) parts (.literal c :: items) = Pattern.read rest parts items := by
  simp only [Pattern.read, Item.read, if_true]
  rfl

theorem Pattern.read_yearText (date : Date) (rest : List Char) (parts : Parts)
    (items : Pattern) :
    Pattern.read (Date.yearText date.year ++ '-' :: rest) parts (.number .year :: items) =
      Pattern.read ('-' :: rest) { parts with year := date.year } items := by
  simp only [Pattern.read, Item.read, Field.read, trimStart_yearText,
    readYear_yearText date.yearInRange]
  rfl

/-- The day is read off the front of a text, whatever follows it. -/
theorem read_day_append (date : Date) (rest : List Char) (items : Pattern) :
    Pattern.read (date.chars ++ rest) {} (Pattern.day ++ items) =
      Pattern.read rest { year := date.year, month := date.month, day := date.day } items := by
  obtain ⟨month, day⟩ := date.month_day_le
  simp only [Date.chars, List.append_assoc, List.cons_append]
  refine (Pattern.read_yearText date _ _ _).trans ?_
  refine (Pattern.read_literal _ _ _ _).trans ?_
  refine (Pattern.read_padded (show Field.month.Allows _ from month) _ _ _).trans ?_
  refine (Pattern.read_literal _ _ _ _).trans ?_
  exact Pattern.read_padded (show Field.day.Allows _ from day) _ _ _

theorem read_day_chars (date : Date) :
    Pattern.read date.chars {} Pattern.day =
      .ok { year := date.year, month := date.month, day := date.day } := by
  have read := read_day_append date [] []
  rwa [List.append_nil, List.append_nil] at read

theorem readAuditDate_text (date : Date) : readAuditDate date.text = .ok date := by
  simp only [readAuditDate, Date.text, String.toList_ofList, Pattern.readDate, read_day_chars,
    bind, Except.bind, Parts.date, Date.ofParts?_self]

/-- A year before the common era and one of five digits. -/
example : (readAuditDate "-0044-03-15").toOption.map Date.text = some "-0044-03-15" ∧
    (readAuditDate "+12024-02-29").toOption.map Date.text = some "+12024-02-29" := by
  decide

theorem Date.text_injective {date day : Date} (same : date.text = day.text) : date = day := by
  have read := readAuditDate_text date
  rw [same, readAuditDate_text] at read
  exact (Except.ok.inj read).symm

end CertificateAudit.Calendar
