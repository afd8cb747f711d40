import CertificateAudit.Der.ObjectId
import CertificateAudit.Proofs.Text.Pieces
import Mathlib.Algebra.Group.Nat.Defs
import Mathlib.Data.List.Basic

/-!
Identifiers by their arcs, and the texts of them. Arcs are read back up to 64 bits, and an
identifier with a longer arc has no dotted text at all, so the dotted text of a known identifier is
that of no other (`Oid.text_content_iff`).
-/

namespace CertificateAudit.Der

open CertificateAudit.Text

namespace ObjectId

/-- Arcs are read below this bound, and above it by their remainders. -/
def arcBound : Nat := 18446744073709551616

theorem toNat_marked (n : Nat) : (UInt8.ofNat (128 + n % 128)).toNat = 128 + n % 128 :=
  UInt8.toNat_ofNat_of_lt' (show 128 + n % 128 < 2 ^ 8 by omega)

theorem not_marked_lt (n : Nat) : ¬ UInt8.ofNat (128 + n % 128) < 0x80 := by
  rw [UInt8.lt_iff_toNat_lt, toNat_marked]
  exact Nat.not_lt.mpr (Nat.le_add_right 128 _)

theorem toNat_last (n : Nat) : (UInt8.ofNat (n % 128)).toNat = n % 128 :=
  UInt8.toNat_ofNat_of_lt' (show n % 128 < 2 ^ 8 by omega)

theorem last_lt (n : Nat) : UInt8.ofNat (n % 128) < 0x80 := by
  rw [UInt8.lt_iff_toNat_lt, toNat_last]
  exact Nat.mod_lt n (by decide)

theorem marked_of_mem_highDigits {n : Nat} {b : UInt8}
    (membership : b ∈ encodeArc.highDigits n) : 128 ≤ b.toNat := by
  fun_induction encodeArc.highDigits n with
  | case1 => cases membership
  | case2 n positive inductionHypothesis =>
      rcases List.mem_append.mp membership with before | last
      · exact inductionHypothesis before
      · rw [List.mem_singleton.mp last, toNat_marked]
        exact Nat.le_add_right 128 _

/-- The last digit behind what the others spell. -/
theorem front_then_last (n : Nat) :
    ((if n / 128 = 0 then none else some (n / 128 % arcBound)).getD 0 * 128 + n % 128) % arcBound =
      n % arcBound := by
  unfold arcBound
  split <;> simp only [Option.getD_none, Option.getD_some] <;> omega

theorem readArcs_highDigits (n : Nat) (bytes : List UInt8) :
    readArcs none (encodeArc.highDigits n ++ bytes) =
      readArcs (if n = 0 then none else some (n % arcBound)) bytes := by
  fun_induction encodeArc.highDigits n generalizing bytes with
  | case1 => rfl
  | case2 n positive inductionHypothesis =>
      have low : (128 + n % 128) % 128 = n % 128 := by omega
      rw [List.append_assoc, inductionHypothesis, List.singleton_append, readArcs]
      simp only [not_marked_lt, if_false, toNat_marked, low, if_neg positive]
      exact congrArg (fun arc => readArcs (some arc) bytes) (front_then_last n)

theorem readArcs_encodeArc (arc : Nat) (rest : List UInt8) :
    readArcs none (encodeArc arc ++ rest) = arc % arcBound :: readArcs none rest := by
  rw [encodeArc, List.append_assoc, readArcs_highDigits, List.singleton_append, readArcs]
  simp only [last_lt, if_true, toNat_last, Nat.mod_mod]
  exact congrArg (· :: readArcs none rest) (front_then_last arc)

theorem readArcs_flatMap (arcs : List Nat) :
    readArcs none (arcs.flatMap encodeArc) = arcs.map (· % arcBound) := by
  induction arcs with
  | nil => rfl
  | cons arc arcs inductionHypothesis =>
      rw [List.flatMap_cons, readArcs_encodeArc, inductionHypothesis, List.map_cons]

theorem longestArc_highDigits (n run longest : Nat) (bytes : List UInt8) :
    longestArc run longest (encodeArc.highDigits n ++ bytes) =
      longestArc (run + (encodeArc.highDigits n).length) longest bytes := by
  fun_induction encodeArc.highDigits n generalizing bytes with
  | case1 => rfl
  | case2 n positive inductionHypothesis =>
      rw [List.append_assoc, inductionHypothesis, List.singleton_append, longestArc,
        if_neg (not_marked_lt n), List.length_append, List.length_singleton, Nat.add_assoc]

theorem longestArc_encodeArc (arc longest : Nat) (rest : List UInt8) :
    longestArc 0 longest (encodeArc arc ++ rest) =
      longestArc 0 (max longest (encodeArc arc).length) rest := by
  rw [encodeArc, List.append_assoc, longestArc_highDigits, List.singleton_append, longestArc,
    if_pos (last_lt arc), List.length_append, List.length_singleton, Nat.zero_add]

theorem longestArc_flatMap_le_iff {arcs : List Nat} {longest bound : Nat} :
    longestArc 0 longest (arcs.flatMap encodeArc) ≤ bound ↔
      longest ≤ bound ∧ ∀ arc ∈ arcs, (encodeArc arc).length ≤ bound := by
  induction arcs generalizing longest with
  | nil => simp [longestArc]
  | cons arc arcs inductionHypothesis =>
      rw [List.flatMap_cons, longestArc_encodeArc, inductionHypothesis, Nat.max_le,
        List.forall_mem_cons, and_assoc]

/-- A digit holds seven bits. -/
theorem arc_lt (arc : Nat) : arc < 128 ^ (encodeArc arc).length := by
  have high (n : Nat) : n < 128 ^ (encodeArc.highDigits n).length := by
    fun_induction encodeArc.highDigits n with
    | case1 => exact Nat.one_pos
    | case2 n positive inductionHypothesis =>
        rw [List.length_append, List.length_singleton, Nat.pow_succ]
        omega
  have front := high (arc / 128)
  rw [encodeArc, List.length_append, List.length_singleton, Nat.pow_succ]
  omega

/-! Dotted texts. -/

theorem dot_not_mem_toString (n : Nat) : '.' ∉ (toString n).toList := by
  rw [Nat.toString_eq_ofList_toDigits, String.toList_ofList]
  intro membership
  cases Nat.isDigit_of_mem_toDigits (by decide) (by decide) membership

theorem splitOn_joinWith_arcs {arcs : List Nat} (given : arcs ≠ []) :
    splitOn '.' (joinWith "." (arcs.map toString)).toList =
      arcs.map fun arc => (toString arc).toList := by
  have someText : arcs.map toString ≠ [] := by simpa using given
  have plain : ∀ piece ∈ arcs.map toString, '.' ∉ piece.toList := by
    simpa using fun arc _ => dot_not_mem_toString arc
  have pieces := splitOn_joinWith someText plain
  rwa [List.map_map] at pieces

theorem joinWith_arcs_injective {arcs others : List Nat} (given : arcs ≠ [])
    (othersGiven : others ≠ [])
    (same : joinWith "." (arcs.map toString) = joinWith "." (others.map toString)) :
    arcs = others := by
  have pieces := splitOn_joinWith_arcs given
  rw [same, splitOn_joinWith_arcs othersGiven] at pieces
  refine List.map_injective_iff.mpr ?_ pieces.symm
  intro n m sameText
  dsimp only at sameText
  rw [Nat.toString_eq_ofList_toDigits, Nat.toString_eq_ofList_toDigits, String.toList_ofList,
    String.toList_ofList] at sameText
  rw [← Nat.ofDigitChars_ten_toDigits (n := n), sameText, Nat.ofDigitChars_ten_toDigits]

/-- Bytes in hexadecimal have no dot between or in them. -/
theorem dot_not_mem_hexText (bytes : List UInt8) :
    '.' ∉ (joinWith " " (bytes.map fun b => String.ofList (Hex.lower [b]))).toList := by
  have digit : ∀ value < 16, Hex.lowerDigits.getD value '0' ≠ '.' := by decide
  apply not_mem_joinWith (by decide)
  intro piece membership
  obtain ⟨b, _, rfl⟩ := List.mem_map.mp membership
  have small := b.toNat_lt
  have high := digit (b.toNat / 16) (by omega)
  have low := digit (b.toNat % 16) (by omega)
  rw [String.toList_ofList, Hex.lower, List.flatMap_cons, List.flatMap_nil, List.append_nil,
    Hex.digitsOf]
  exact List.not_mem_cons_of_ne_of_not_mem high.symm
    (List.not_mem_cons_of_ne_of_not_mem low.symm List.not_mem_nil)

/-- Only arcs of less than 64 bits are written with dots. -/
theorem dotted_eq_iff {bytes spelled : List UInt8} {first arcs : List Nat} (given : first ≠ [])
    (several : 1 < arcs.length) :
    dotted bytes spelled first = joinWith "." (arcs.map toString) ↔
      longestArc 0 0 spelled ≤ 9 ∧ first ++ readArcs none spelled = arcs := by
  have arcsGiven : arcs ≠ [] := by
    rintro rfl
    cases several
  have readGiven : first ++ readArcs none spelled ≠ [] := by simp [given]
  unfold dotted
  split
  case isTrue long =>
    constructor
    · intro same
      have whole := splitOn_of_not_mem (dot_not_mem_hexText bytes)
      rw [same, splitOn_joinWith_arcs arcsGiven] at whole
      have single := congrArg List.length whole
      rw [List.length_map, List.length_singleton] at single
      omega
    · rintro ⟨short, _⟩
      omega
  case isFalse short =>
    constructor
    · intro same
      exact ⟨by omega, joinWith_arcs_injective readGiven arcsGiven same⟩
    · rintro ⟨_, rfl⟩
      rfl

end ObjectId

/-- An object identifier by its arcs. There are three first arcs, and below two of them only forty
second ones. -/
structure Oid where
  first : Nat
  second : Nat
  others : List Nat
  inRange : first ≤ 1 ∧ second < 40 ∨ first = 2
deriving DecidableEq

namespace Oid

open ObjectId

/-- The first two arcs are spelled as one number. -/
def front (oid : Oid) : Nat :=
  oid.first * 40 + oid.second

/-- The content bytes of the identifier. -/
def content (oid : Oid) : List UInt8 :=
  encodeArc oid.front ++ oid.others.flatMap encodeArc

def arcs (oid : Oid) : List Nat :=
  oid.first :: oid.second :: oid.others

def dotted (oid : Oid) : String :=
  joinWith "." (oid.arcs.map toString)

/-- The identifier has the usual text: one of the arcs 0 and 1 comes first, some follow behind the
second, and all of these are below 64 bits. -/
structure IsPlain (oid : Oid) : Prop where
  first_le : oid.first ≤ 1
  others_ne : oid.others ≠ []
  short : ∀ arc ∈ oid.others, (encodeArc arc).length ≤ 9

theorem encodeArc_of_lt {arc : Nat} (small : arc < 128) : encodeArc arc = [UInt8.ofNat arc] := by
  have noFront : arc / 128 = 0 := Nat.div_eq_of_lt small
  have last : arc % 128 = arc := Nat.mod_eq_of_lt small
  rw [encodeArc, noFront, encodeArc.highDigits, if_pos rfl, last, List.nil_append]

/-- A number of more than one byte starts with a marked byte. -/
theorem exists_encodeArc_of_le {arc : Nat} (large : 128 ≤ arc) :
    ∃ b more, encodeArc arc = b :: more ∧ 128 ≤ b.toNat := by
  have nonempty : encodeArc.highDigits (arc / 128) ≠ [] := by
    have positive : arc / 128 ≠ 0 := by omega
    rw [encodeArc.highDigits, if_neg positive]
    simp
  obtain ⟨b, more, spelled⟩ := List.exists_cons_of_ne_nil nonempty
  refine ⟨b, more ++ [UInt8.ofNat (arc % 128)], by rw [encodeArc, spelled]; rfl, ?_⟩
  apply marked_of_mem_highDigits (n := arc / 128)
  rw [spelled]
  exact List.mem_cons_self

/-- An arc below 64 bits is read as it is. -/
theorem map_mod_of_short {arcs : List Nat} (short : ∀ arc ∈ arcs, (encodeArc arc).length ≤ 9) :
    arcs.map (· % arcBound) = arcs := by
  refine (List.map_congr_left fun arc membership => ?_).trans (List.map_id arcs)
  apply Nat.mod_eq_of_lt
  calc arc
    _ < 128 ^ (encodeArc arc).length := arc_lt arc
    _ ≤ 128 ^ 9 := Nat.pow_le_pow_right (by decide) (short arc membership)
    _ < arcBound := by decide

theorem text_cons_iff {known : Oid} (plain : known.IsPlain) (b : UInt8) (rest : List UInt8) :
    ObjectId.text (b :: rest) = known.dotted ↔
      longestArc 0 0 rest ≤ 9 ∧
        [b.toNat / 40, b.toNat % 40] ++ readArcs none rest = known.arcs := by
  have several : 1 < known.arcs.length := by simp [arcs]
  unfold ObjectId.text
  split
  case h_1 none => cases none
  case h_2 zero =>
    obtain ⟨rfl, rfl⟩ := List.cons.inj zero
    constructor
    · intro same
      have single : [0] = known.arcs :=
        joinWith_arcs_injective (List.cons_ne_nil _ _) (List.cons_ne_nil _ _) same
      rw [← single] at several
      exact absurd several (Nat.lt_irrefl 1)
    · rintro ⟨_, same⟩
      injection same with _ same
      injection same with _ same
      exact absurd same.symm plain.others_ne
  case h_3 whole =>
    obtain ⟨rfl, rfl⟩ := List.cons.inj whole
    exact dotted_eq_iff (List.cons_ne_nil _ _) several

/-- The text of a plain identifier is that of no other. -/
theorem text_content_iff {known : Oid} (plain : known.IsPlain) (oid : Oid) :
    ObjectId.text oid.content = known.dotted ↔ oid = known := by
  have range := known.inRange
  have lowFirst := plain.first_le
  by_cases small : oid.front < 128
  · have byte : (UInt8.ofNat oid.front).toNat = oid.front :=
      UInt8.toNat_ofNat_of_lt' (show oid.front < 2 ^ 8 by omega)
    rw [content, encodeArc_of_lt small, List.singleton_append, text_cons_iff plain, byte,
      longestArc_flatMap_le_iff, readArcs_flatMap]
    constructor
    · rintro ⟨⟨_, short⟩, same⟩
      rw [map_mod_of_short short] at same
      obtain ⟨sameFirst, rest⟩ := List.cons.inj same
      obtain ⟨sameSecond, sameOthers⟩ := List.cons.inj rest
      have ownRange := oid.inRange
      unfold front at small sameFirst sameSecond
      cases oid
      cases known
      simp only [Oid.mk.injEq]
      dsimp only at *
      refine ⟨?_, ?_, sameOthers⟩ <;> omega
    · rintro rfl
      rw [map_mod_of_short plain.short]
      refine ⟨⟨Nat.zero_le _, plain.short⟩, ?_⟩
      have first : oid.front / 40 = oid.first := by
        unfold front
        omega
      have second : oid.front % 40 = oid.second := by
        unfold front
        omega
      rw [first, second]
      rfl
  · obtain ⟨b, more, spelled, marked⟩ := exists_encodeArc_of_le (Nat.le_of_not_lt small)
    rw [content, spelled, List.cons_append, text_cons_iff plain]
    constructor
    · rintro ⟨_, same⟩
      have sameFirst := (List.cons.inj same).1
      omega
    · rintro rfl
      unfold front at small
      omega

end Oid

end CertificateAudit.Der
