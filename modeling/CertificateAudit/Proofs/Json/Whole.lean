import CertificateAudit.Candidate
import CertificateAudit.Proofs.Json.Printing

/-!
Whole numbers in JSON. Digits without a leading zero are the decimal digits of what they denote,
so a literal that is read as the number of a certificate is its only spelling (`id?_eq_some_iff`).
-/

namespace CertificateAudit.Json

open CertificateAudit.Text

theorem IsWhole.of_append {front : List Char} {c : Char} (isWhole : IsWhole (front ++ [c]))
    (filled : front ≠ []) : IsWhole front ∧ front.head? ≠ some '0' := by
  obtain ⟨⟨_, digits⟩, noZero⟩ := isWhole
  have noLeading : front.head? ≠ some '0' := by
    intro zero
    have alone := noZero (by rw [List.head?_append, zero]; rfl)
    have short := congrArg List.length alone
    rw [List.length_append, List.length_singleton, List.length_singleton] at short
    exact filled (List.length_eq_zero_iff.mp (by omega))
  refine ⟨⟨⟨filled, ?_⟩, fun zero => absurd zero noLeading⟩, noLeading⟩
  exact fun digit membership => digits digit (List.mem_append_left [c] membership)

/-- By induction from the last digit, in front of which there is nothing or a number that is not
zero. -/
theorem toDigits_value {digits : List Char} (isWhole : IsWhole digits) :
    Nat.toDigits 10 (Decimal.value digits) = digits := by
  induction digits using List.reverseRecOn with
  | nil => exact absurd rfl isWhole.1.1
  | append_singleton front c inductionHypothesis =>
      obtain ⟨small, spelled⟩ :=
        Decimal.digitChar_of_isDigit (isWhole.1.2 c (List.mem_append_right front
          (List.mem_singleton_self c)))
      rw [Decimal.value_append_singleton]
      by_cases filled : front = []
      · subst filled
        rw [show Decimal.value [] = 0 from rfl, Nat.zero_mul, Nat.zero_add,
          Nat.toDigits_of_lt_base small, spelled]
        rfl
      · obtain ⟨isFront, noLeading⟩ := isWhole.of_append filled
        have front' := inductionHypothesis isFront
        have positive : 0 < Decimal.value front := by
          refine Nat.pos_of_ne_zero fun zero => noLeading ?_
          rw [← front', zero, Nat.toDigits_zero]
          rfl
        rw [Nat.toDigits_of_base_le (by decide) (by omega)]
        have whole : (Decimal.value front * 10 + (c.toNat - '0'.toNat)) / 10 =
            Decimal.value front := by omega
        have last : (Decimal.value front * 10 + (c.toNat - '0'.toNat)) % 10 =
            c.toNat - '0'.toNat := by omega
        rw [whole, last, front', spelled]

/-- Only a whole number is spelled with digits alone. -/
theorem eq_nil_of_all_isDigit {whole fraction exponent : List Char}
    (isFraction : IsFraction fraction) (isExponent : IsExponent exponent)
    (digits : (whole ++ fraction ++ exponent).all Decimal.isDigit = true) :
    fraction = [] ∧ exponent = [] := by
  rw [List.all_append, List.all_append, Bool.and_eq_true, Bool.and_eq_true] at digits
  constructor
  · cases isFraction with
    | absent => rfl
    | present => cases digits.1.2
  · cases isExponent with
    | absent => rfl
    | present letters =>
        have digit := digits.2
        rcases letters with rfl | rfl <;> cases digit

end CertificateAudit.Json

namespace CertificateAudit.Listing

open CertificateAudit.Text

/-- The numbers that certificates can have. -/
def InRange (n : Int) : Prop :=
  -9223372036854775808 ≤ n ∧ n ≤ 9223372036854775807

theorem idOfSpelling?_of_whole {whole : List Char} (isWhole : Json.IsWhole whole) :
    idOfSpelling? whole =
      if Decimal.value whole ≤ 9223372036854775807 then some (Decimal.value whole : Int)
      else none := by
  obtain ⟨first, others, rfl, digit⟩ := Json.exists_cons_of_isWhole isWhole
  have unsigned : first ≠ '-' := by
    rintro rfl
    cases digit
  have digits : (first :: others).all Decimal.isDigit = true := List.all_eq_true.mpr isWhole.1.2
  simp [idOfSpelling?, unsigned, digits]

theorem idOfSpelling?_of_negative {whole : List Char} (isWhole : Json.IsWhole whole) :
    idOfSpelling? ('-' :: whole) =
      if 1 ≤ Decimal.value whole ∧ Decimal.value whole ≤ 9223372036854775808 then
        some (-(Decimal.value whole : Int))
      else none := by
  have digits : whole.all Decimal.isDigit = true := List.all_eq_true.mpr isWhole.1.2
  have filled : whole.isEmpty = false := List.isEmpty_eq_false_iff.mpr isWhole.1.1
  simp [idOfSpelling?, digits, filled]

/-- A literal with more to it than digits and a sign is no number of a certificate. -/
theorem isWhole_of_idOfSpelling? {spelling : List Char} {n : Int}
    (number : Json.IsNumber spelling) (read : idOfSpelling? spelling = some n) :
    Json.IsWhole spelling ∨ ∃ whole, spelling = '-' :: whole ∧ Json.IsWhole whole := by
  cases number with
  | @positive whole fraction exponent isWhole isFraction isExponent =>
      have digits : (whole ++ fraction ++ exponent).all Decimal.isDigit = true := by
        obtain ⟨first, others, rfl, digit⟩ := Json.exists_cons_of_isWhole isWhole
        have unsigned : first ≠ '-' := by
          rintro rfl
          cases digit
        simp [idOfSpelling?, unsigned] at read
        simpa using read.1
      obtain ⟨rfl, rfl⟩ := Json.eq_nil_of_all_isDigit isFraction isExponent digits
      rw [List.append_nil, List.append_nil]
      exact .inl isWhole
  | @negative whole fraction exponent isWhole isFraction isExponent =>
      have digits : (whole ++ fraction ++ exponent).all Decimal.isDigit = true := by
        simp [idOfSpelling?] at read
        simpa using read.1.2
      obtain ⟨rfl, rfl⟩ := Json.eq_nil_of_all_isDigit isFraction isExponent digits
      rw [List.append_nil, List.append_nil]
      exact .inr ⟨whole, rfl, isWhole⟩

theorem idOfSpelling?_toString {n : Int} (inRange : InRange n) :
    idOfSpelling? (toString n).toList = some n := by
  unfold InRange at inRange
  cases n with
  | ofNat n =>
      rw [Int.ofNat_eq_natCast] at inRange
      rw [Json.toList_toString_ofNat, idOfSpelling?_of_whole (Json.isWhole_toDigits n),
        Decimal.value_eq_ofDigitChars, Nat.ofDigitChars_ten_toDigits, if_pos (by omega)]
      rfl
  | negSucc n =>
      rw [Json.toList_toString_negSucc, idOfSpelling?_of_negative (Json.isWhole_toDigits (n + 1)),
        Decimal.value_eq_ofDigitChars, Nat.ofDigitChars_ten_toDigits, if_pos (by omega)]
      rfl

/-- Numbers in range are read from their own spelling, and from no other. -/
theorem idOfSpelling?_eq_some_iff {spelling : List Char} {n : Int}
    (number : Json.IsNumber spelling) :
    idOfSpelling? spelling = some n ↔ InRange n ∧ spelling = (toString n).toList := by
  constructor
  · intro read
    unfold InRange
    rcases isWhole_of_idOfSpelling? number read with isWhole | ⟨whole, rfl, isWhole⟩
    · rw [idOfSpelling?_of_whole isWhole] at read
      split at read
      case isTrue small =>
        cases read
        exact ⟨by omega, (Json.toDigits_value isWhole).symm.trans
          (Json.toList_toString_ofNat _).symm⟩
      case isFalse => cases read
    · rw [idOfSpelling?_of_negative isWhole] at read
      split at read
      case isTrue small =>
        cases read
        obtain ⟨m, same⟩ := Nat.exists_eq_succ_of_ne_zero (Nat.ne_of_gt small.1)
        refine ⟨by omega, ?_⟩
        have spelled := Json.toDigits_value isWhole
        rw [same] at spelled ⊢
        rw [← spelled]
        exact (Json.toList_toString_negSucc m).symm
      case isFalse => cases read
  · rintro ⟨inRange, rfl⟩
    exact idOfSpelling?_toString inRange

theorem id?_eq_some_iff {value : Json} {text : List Char} {n : Int}
    (spells : Json.Spells value text) :
    id? value = some n ↔ InRange n ∧ value = Json.ofInt n := by
  cases spells with
  | number number =>
      simp only [id?, idOfSpelling?_eq_some_iff number, Json.ofInt, Json.number.injEq]
  | _ => simp [id?, Json.ofInt]

end CertificateAudit.Listing
