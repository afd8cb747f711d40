import CertificateAudit.Der.Number
import Mathlib.Algebra.Group.Nat.Defs
import Mathlib.Data.List.Induction

/-!
Byte strings and the numbers they denote. `bigEndian` spells every number, and what is left of
a byte string without its leading zero bytes is that spelling of its number.
-/

namespace CertificateAudit.Der

theorem unsigned_concat (bytes : List UInt8) (b : UInt8) :
    unsigned (bytes ++ [b]) = unsigned bytes * 256 + b.toNat := by
  simp [unsigned]

theorem unsigned_bigEndian (n : Nat) : unsigned (bigEndian n) = n := by
  induction n using bigEndian.induct with
  | case1 =>
      rw [bigEndian]
      rfl
  | case2 n positive inductionHypothesis =>
      rw [bigEndian, if_neg positive, unsigned_concat, inductionHypothesis]
      have small : n % 256 < 2 ^ 8 := Nat.mod_lt n (by decide)
      rw [UInt8.toNat_ofNat_of_lt' small]
      exact Nat.div_add_mod' n 256

theorem length_bigEndian_le {n size : Nat} (bounded : n < 256 ^ size) :
    (bigEndian n).length ≤ size := by
  induction size generalizing n with
  | zero =>
      have zero : n = 0 := by simpa using bounded
      rw [zero, bigEndian]
      simp
  | succ size inductionHypothesis =>
      rw [bigEndian]
      split
      · simp
      · have shorter : n / 256 < 256 ^ size := by
          rw [Nat.pow_succ] at bounded
          exact Nat.div_lt_of_lt_mul (by omega)
        have counted := inductionHypothesis shorter
        simp only [List.length_append, List.length_singleton]
        omega

theorem bigEndian_eq_nil_iff {n : Nat} : bigEndian n = [] ↔ n = 0 := by
  constructor
  · intro empty
    rw [← unsigned_bigEndian n, empty]
    rfl
  · rintro rfl
    rw [bigEndian]
    simp

theorem bigEndian_concat (n : Nat) (b : UInt8) :
    bigEndian (n * 256 + b.toNat) =
      if n * 256 + b.toNat = 0 then [] else bigEndian n ++ [b] := by
  have small := b.toNat_lt
  have front : (n * 256 + b.toNat) / 256 = n := by omega
  have last : (n * 256 + b.toNat) % 256 = b.toNat := by omega
  rw [bigEndian, front, last, UInt8.ofNat_toNat]

/-- Without its leading zero bytes a byte string is the spelling of its number. -/
theorem trimZeros_eq_bigEndian (bytes : List UInt8) :
    trimZeros bytes = bigEndian (unsigned bytes) := by
  induction bytes using List.reverseRecOn with
  | nil =>
      rw [bigEndian]
      rfl
  | append_singleton bytes b inductionHypothesis =>
      unfold trimZeros at inductionHypothesis ⊢
      rw [List.dropWhile_append, inductionHypothesis, unsigned_concat, bigEndian_concat]
      by_cases zero : unsigned bytes = 0
      · rw [bigEndian_eq_nil_iff.mpr zero, zero]
        by_cases last : b = 0
        · subst last
          rfl
        · have positive : b.toNat ≠ 0 := fun none => last (UInt8.toNat_inj.mp none)
          simp [last, positive]
      · have nonempty : bigEndian (unsigned bytes) ≠ [] :=
          fun empty => zero (bigEndian_eq_nil_iff.mp empty)
        have positive : unsigned bytes * 256 + b.toNat ≠ 0 := by omega
        rw [if_neg positive]
        simp [nonempty]

/-- Two byte strings denote the same number exactly if they differ only in leading zeros. -/
theorem trimZeros_eq_iff {left right : List UInt8} :
    trimZeros left = trimZeros right ↔ unsigned left = unsigned right := by
  rw [trimZeros_eq_bigEndian, trimZeros_eq_bigEndian]
  constructor
  · intro same
    rw [← unsigned_bigEndian (unsigned left), same, unsigned_bigEndian]
  · intro same
    rw [same]

theorem trimZeros_beq (left right : List UInt8) :
    (trimZeros left == trimZeros right) = (unsigned left == unsigned right) := by
  rw [Bool.eq_iff_iff, beq_iff_eq, beq_iff_eq, trimZeros_eq_iff]

end CertificateAudit.Der
