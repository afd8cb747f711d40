import CertificateAudit.Text.Decimal
import Mathlib.Algebra.Group.Nat.Defs
import Mathlib.Data.List.Induction

/-!
Numbers written with leading zeros: the digits are digits, there are as many of them as asked
for if the number is that short, and they denote the number.
-/

namespace CertificateAudit.Text.Decimal

theorem value_eq_ofDigitChars (digits : List Char) :
    value digits = Nat.ofDigitChars 10 digits 0 := by
  unfold value Nat.ofDigitChars
  congr 1
  funext n c
  rw [Nat.mul_comm]

theorem value_padded (width n : Nat) : value (padded width n) = n := by
  rw [value_eq_ofDigitChars, padded, Nat.ofDigitChars_append, Nat.ofDigitChars_replicate_zero,
    Nat.mul_zero, Nat.ofDigitChars_ten_toDigits]

theorem length_padded {width n : Nat} (positive : 0 < width) (short : n < 10 ^ width) :
    (padded width n).length = width := by
  have fits : (Nat.toDigits 10 n).length ≤ width :=
    (Nat.length_toDigits_le_iff (by decide) positive).mpr short
  simp only [padded, List.length_append, List.length_replicate]
  omega

theorem isDigit_of_mem_padded {width n : Nat} {c : Char} (membership : c ∈ padded width n) :
    isDigit c = true := by
  rcases List.mem_append.mp membership with zero | digit
  · rw [List.eq_of_mem_replicate zero]
    decide
  · have isDecimal := Nat.isDigit_of_mem_toDigits (by decide) (by decide) digit
    simpa [Char.isDigit, isDigit, Char.le_def] using isDecimal

theorem toNat_of_isDigit {c : Char} (digit : isDigit c = true) :
    '0'.toNat ≤ c.toNat ∧ c.toNat ≤ '9'.toNat := by
  simpa [isDigit, Char.le_def, UInt32.le_iff_toNat_le] using digit

theorem value_append_singleton (digits : List Char) (c : Char) :
    value (digits ++ [c]) = value digits * 10 + (c.toNat - '0'.toNat) := by
  rw [value, List.foldl_append]
  rfl

theorem digitChar_of_isDigit {c : Char} (digit : isDigit c = true) :
    c.toNat - '0'.toNat < 10 ∧ Nat.digitChar (c.toNat - '0'.toNat) = c := by
  obtain ⟨lowest, highest⟩ := toNat_of_isDigit digit
  have zero : '0'.toNat = 48 := rfl
  have nine : '9'.toNat = 57 := rfl
  have spelled : ∀ n < 10, (Nat.digitChar n).toNat = n + 48 := by decide
  have small : c.toNat - '0'.toNat < 10 := by omega
  refine ⟨small, ?_⟩
  rw [← Char.toNat_inj, spelled _ small]
  omega

/-- A number has no fewer digits than it needs. -/
theorem value_lt_pow {digits : List Char} (all : ∀ c ∈ digits, isDigit c = true) :
    value digits < 10 ^ digits.length := by
  induction digits using List.reverseRecOn with
  | nil => exact Nat.one_pos
  | append_singleton front c inductionHypothesis =>
      have smaller := inductionHypothesis fun other membership =>
        all other (List.mem_append_left [c] membership)
      obtain ⟨last, -⟩ := digitChar_of_isDigit
        (all c (List.mem_append_right front (List.mem_singleton_self c)))
      rw [value_append_singleton, List.length_append, List.length_singleton, Nat.pow_succ]
      omega

theorem padded_succ {width : Nat} (positive : 0 < width) (n : Nat) :
    padded (width + 1) n = padded width (n / 10) ++ [Nat.digitChar (n % 10)] := by
  unfold padded
  rw [Nat.toDigits_eq_if (by decide)]
  split
  case isTrue small =>
      have front : n / 10 = 0 := by omega
      have last : n % 10 = n := by omega
      obtain ⟨width, rfl⟩ := Nat.exists_eq_succ_of_ne_zero (Nat.ne_of_gt positive)
      rw [front, last, Nat.toDigits_zero]
      simp [List.replicate_succ']
  case isFalse large => simp

theorem padded_two {n : Nat} (short : n < 100) :
    padded 2 n = [Nat.digitChar (n / 10), Nat.digitChar (n % 10)] := by
  have front : n / 10 < 10 := by omega
  rw [padded_succ (by decide), padded, Nat.toDigits_of_lt_base front]
  rfl

/-- Digits are what their number is written with, if it is written just as wide. -/
theorem padded_value {digits : List Char} (given : digits ≠ [])
    (all : ∀ c ∈ digits, isDigit c = true) : padded digits.length (value digits) = digits := by
  induction digits using List.reverseRecOn with
  | nil => exact absurd rfl given
  | append_singleton front c inductionHypothesis =>
      obtain ⟨small, spelled⟩ := digitChar_of_isDigit
        (all c (List.mem_append_right front (List.mem_singleton_self c)))
      rw [value_append_singleton, List.length_append, List.length_singleton]
      generalize c.toNat - '0'.toNat = digit at small spelled
      by_cases single : front = []
      · have alone : value front * 10 + digit = digit := by simp [single, value]
        rw [alone, single, padded, Nat.toDigits_of_lt_base small, spelled]
        rfl
      · have positive : 0 < front.length := List.length_pos_iff.mpr single
        have tens : (value front * 10 + digit) / 10 = value front := by omega
        have ones : (value front * 10 + digit) % 10 = digit := by omega
        have others := inductionHypothesis single fun other membership =>
          all other (List.mem_append_left [c] membership)
        rw [padded_succ positive, tens, ones, others, spelled]

/-- The last two digits of a number are a number of their own. -/
theorem padded_add_two {width : Nat} (positive : 0 < width) (n : Nat) :
    padded (width + 2) n = padded width (n / 100) ++ padded 2 (n % 100) := by
  have front : n / 10 / 10 = n / 100 := by omega
  have tens : n % 100 / 10 = n / 10 % 10 := by omega
  have ones : n % 100 % 10 = n % 10 := by omega
  rw [padded_succ (Nat.succ_pos width), padded_succ positive,
    padded_two (Nat.mod_lt n (by decide)), front, tens, ones, List.append_assoc]
  rfl

end CertificateAudit.Text.Decimal
