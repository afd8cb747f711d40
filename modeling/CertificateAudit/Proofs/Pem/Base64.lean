import CertificateAudit.Pem.Base64
import CertificateAudit.Text.Blank

/-!
Base64: bytes that are written are read back, and what is written are digits and padding, none
of which is a blank or a dash.
-/

namespace CertificateAudit.Pem.Base64

open CertificateAudit.Text

theorem value?_digit {value : Nat} (small : value < 64) : value? (digit value) = some value := by
  have all : ∀ value : Fin 64, value? (digit value) = some value.val := by decide
  exact all ⟨value, small⟩

theorem digit_ne_pad {value : Nat} (small : value < 64) : digit value ≠ '=' := by
  intro same
  have read := value?_digit small
  rw [same] at read
  cases read

section Groups

variable (a b c : UInt8) {low : Nat}

theorem ofNat_first (small : low < 16) :
    UInt8.ofNat (a.toNat / 4 * 4 + (a.toNat % 4 * 16 + low) / 16) = a := by
  have same : a.toNat / 4 * 4 + (a.toNat % 4 * 16 + low) / 16 = a.toNat := by omega
  rw [same, UInt8.ofNat_toNat]

theorem ofNat_second (small : low < 4) :
    UInt8.ofNat ((a.toNat % 4 * 16 + b.toNat / 16) % 16 * 16 +
      (b.toNat % 16 * 4 + low) / 4) = b := by
  have bounded := b.toNat_lt
  have same : (a.toNat % 4 * 16 + b.toNat / 16) % 16 * 16 + (b.toNat % 16 * 4 + low) / 4 =
      b.toNat := by
    omega
  rw [same, UInt8.ofNat_toNat]

theorem ofNat_third :
    UInt8.ofNat ((b.toNat % 16 * 4 + c.toNat / 64) % 4 * 64 + c.toNat % 64) = c := by
  have bounded := c.toNat_lt
  have same : (b.toNat % 16 * 4 + c.toNat / 64) % 4 * 64 + c.toNat % 64 = c.toNat := by omega
  rw [same, UInt8.ofNat_toNat]

theorem first_lt : a.toNat / 4 < 64 := by
  have bounded := a.toNat_lt
  omega

theorem second_lt : a.toNat % 4 * 16 + b.toNat / 16 < 64 := by
  have bounded := b.toNat_lt
  omega

theorem third_lt : b.toNat % 16 * 4 + c.toNat / 64 < 64 := by
  have bounded := c.toNat_lt
  omega

theorem fourth_lt : c.toNat % 64 < 64 := Nat.mod_lt _ (by decide)

theorem decodeLast?_one :
    decodeLast? (digit (a.toNat / 4)) (digit (a.toNat % 4 * 16)) '=' '=' = some [a] := by
  have second : a.toNat % 4 * 16 < 64 := by omega
  have filled : a.toNat % 4 * 16 % 16 = 0 := by omega
  have byte := @ofNat_first a 0 (by decide)
  rw [Nat.add_zero] at byte
  simp only [decodeLast?, value?_digit (first_lt a), value?_digit second, filled, byte,
    Option.bind_eq_bind, Option.bind_some, if_true, and_self]

theorem decodeLast?_two :
    decodeLast? (digit (a.toNat / 4)) (digit (a.toNat % 4 * 16 + b.toNat / 16))
      (digit (b.toNat % 16 * 4)) '=' = some [a, b] := by
  have third : b.toNat % 16 * 4 < 64 := by omega
  have filled : b.toNat % 16 * 4 % 4 = 0 := by omega
  have bounded := b.toNat_lt
  have first := @ofNat_first a (b.toNat / 16) (by omega)
  have second := @ofNat_second a b 0 (by decide)
  rw [Nat.add_zero] at second
  simp only [decodeLast?, value?_digit (first_lt a), value?_digit (second_lt a b),
    value?_digit third, digit_ne_pad third, filled, first, second, Option.bind_eq_bind,
    Option.bind_some, if_true, if_false]

theorem decodeLast?_three :
    decodeLast? (digit (a.toNat / 4)) (digit (a.toNat % 4 * 16 + b.toNat / 16))
      (digit (b.toNat % 16 * 4 + c.toNat / 64)) (digit (c.toNat % 64)) = some [a, b, c] := by
  have boundedSecond := b.toNat_lt
  have boundedThird := c.toNat_lt
  have first := @ofNat_first a (b.toNat / 16) (by omega)
  have second := @ofNat_second a b (c.toNat / 64) (by omega)
  simp only [decodeLast?, value?_digit (first_lt a), value?_digit (second_lt a b),
    value?_digit (third_lt b c), value?_digit (fourth_lt c), digit_ne_pad (third_lt b c),
    digit_ne_pad (fourth_lt c), first, second, ofNat_third b c, Option.bind_eq_bind,
    Option.bind_some, if_false]

theorem decode?_cons_of_ne_nil {rest : List Char} (more : rest ≠ []) :
    decode? (digit (a.toNat / 4) :: digit (a.toNat % 4 * 16 + b.toNat / 16) ::
      digit (b.toNat % 16 * 4 + c.toNat / 64) :: digit (c.toNat % 64) :: rest) =
        (decode? rest).map fun bytes => a :: b :: c :: bytes := by
  have boundedSecond := b.toNat_lt
  have boundedThird := c.toNat_lt
  have first := @ofNat_first a (b.toNat / 16) (by omega)
  have second := @ofNat_second a b (c.toNat / 64) (by omega)
  cases rest with
  | nil => exact absurd rfl more
  | cons next rest =>
      simp only [decode?, value?_digit (first_lt a), value?_digit (second_lt a b),
        value?_digit (third_lt b c), value?_digit (fourth_lt c), first, second, ofNat_third b c,
        Option.bind_eq_bind, Option.bind_some]
      cases decode? (next :: rest) <;> rfl

end Groups

theorem encode_eq_nil_iff {bytes : List UInt8} : encode bytes = [] ↔ bytes = [] := by
  fun_cases encode bytes <;> simp

theorem decode?_encode (bytes : List UInt8) : decode? (encode bytes) = some bytes := by
  fun_induction encode bytes with
  | case1 => rfl
  | case2 a => exact decodeLast?_one a
  | case3 a b => exact decodeLast?_two a b
  | case4 a b c rest inductionHypothesis =>
      -- Only the last group may be padded, so it is read in another way than the others.
      by_cases last : rest = []
      · subst last
        exact decodeLast?_three a b c
      · have more : encode rest ≠ [] := by
          rw [Ne, encode_eq_nil_iff]
          exact last
        rw [decode?_cons_of_ne_nil a b c more, inductionHypothesis]
        rfl

/-- A digit or the padding. -/
def IsSymbol (c : Char) : Prop :=
  (∃ value < 64, c = digit value) ∨ c = '='

theorem isSymbol_of_mem_encode {bytes : List UInt8} {c : Char} (membership : c ∈ encode bytes) :
    IsSymbol c := by
  fun_induction encode bytes with
  | case1 => cases membership
  | case2 a =>
      simp only [List.mem_cons, List.not_mem_nil, or_false] at membership
      rcases membership with rfl | rfl | rfl | rfl
      · exact .inl ⟨_, first_lt a, rfl⟩
      · exact .inl ⟨_, by omega, rfl⟩
      · exact .inr rfl
      · exact .inr rfl
  | case3 a b =>
      simp only [List.mem_cons, List.not_mem_nil, or_false] at membership
      rcases membership with rfl | rfl | rfl | rfl
      · exact .inl ⟨_, first_lt a, rfl⟩
      · exact .inl ⟨_, second_lt a b, rfl⟩
      · exact .inl ⟨_, by omega, rfl⟩
      · exact .inr rfl
  | case4 a b d rest inductionHypothesis =>
      simp only [List.mem_cons] at membership
      rcases membership with rfl | rfl | rfl | rfl | later
      · exact .inl ⟨_, first_lt a, rfl⟩
      · exact .inl ⟨_, second_lt a b, rfl⟩
      · exact .inl ⟨_, third_lt b d, rfl⟩
      · exact .inl ⟨_, fourth_lt d, rfl⟩
      · exact inductionHypothesis later

/-- Nothing that frames or separates lines is a symbol. -/
theorem IsSymbol.plain {c : Char} (symbol : IsSymbol c) : isBlank c = false ∧ c ≠ '-' := by
  have all : ∀ value : Fin 64, isBlank (digit value) = false ∧ digit value ≠ '-' := by decide
  rcases symbol with ⟨value, small, rfl⟩ | rfl
  · exact all ⟨value, small⟩
  · decide

theorem IsSymbol.toNat_lt {c : Char} (symbol : IsSymbol c) : c.toNat < 0x80 := by
  have all : ∀ value : Fin 64, (digit value).toNat < 0x80 := by decide
  rcases symbol with ⟨value, small, rfl⟩ | rfl
  · exact all ⟨value, small⟩
  · decide

end CertificateAudit.Pem.Base64
