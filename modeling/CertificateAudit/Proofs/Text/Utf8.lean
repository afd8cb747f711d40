import CertificateAudit.Proofs.Traversal
import CertificateAudit.Text.Utf8

/-!
The strict reading of UTF-8 accepts exactly what the writing produces (`decode?_eq_some_iff`), so
well-formed bytes have one text and a text has one spelling. `SpellsCode` is the table of
well-formed byte sequences; the scan reads them and nothing else as characters, and they are what
the writing makes of characters.
-/

namespace CertificateAudit.Text.Utf8

/-- A byte that continues a sequence. -/
def Continues (b : UInt8) : Prop :=
  0x80 ≤ b.toNat ∧ b.toNat ≤ 0xbf

/-- The value bits of a sequence with those of one more byte. -/
def extend (value : Nat) (b : UInt8) : Nat :=
  value * 64 + (b.toNat - 0x80)

/-- The well-formed byte sequences and the code points they stand for. The bounds of the second
byte rule out long spellings, surrogates and code points that do not exist. -/
inductive SpellsCode : Nat → List UInt8 → Prop where
  | one {lead} : lead.toNat ≤ 0x7f → SpellsCode lead.toNat [lead]
  | two {lead second} :
      0xc2 ≤ lead.toNat → lead.toNat ≤ 0xdf → Continues second →
      SpellsCode (extend (lead.toNat - 0xc0) second) [lead, second]
  | three {lead second third} :
      0xe0 ≤ lead.toNat → lead.toNat ≤ 0xef → Continues second →
      (lead.toNat = 0xe0 → 0xa0 ≤ second.toNat) → (lead.toNat = 0xed → second.toNat ≤ 0x9f) →
      Continues third →
      SpellsCode (extend (extend (lead.toNat - 0xe0) second) third) [lead, second, third]
  | four {lead second third fourth} :
      0xf0 ≤ lead.toNat → lead.toNat ≤ 0xf4 → Continues second →
      (lead.toNat = 0xf0 → 0x90 ≤ second.toNat) → (lead.toNat = 0xf4 → second.toNat ≤ 0x8f) →
      Continues third → Continues fourth →
      SpellsCode (extend (extend (extend (lead.toNat - 0xf0) second) third) fourth)
        [lead, second, third, fourth]

/-! The table and the writing. -/

theorem toNat_ofNat {n : Nat} (valid : n.isValidChar) : (Char.ofNat n).val.toNat = n := by
  rw [Char.ofNat, dif_pos valid]
  rfl

theorem ofNat_eq {b : UInt8} {n : Nat} (same : n = b.toNat) : UInt8.ofNat n = b := by
  rw [same, UInt8.ofNat_toNat]

/-- Only code points of characters are spelled. -/
theorem SpellsCode.isValidChar {n : Nat} {bytes : List UInt8} (spells : SpellsCode n bytes) :
    n.isValidChar := by
  unfold Nat.isValidChar
  cases spells with
  | one small => omega
  | two lowest highest second =>
      unfold Continues at second
      unfold extend
      omega
  | three lowest highest second long surrogate third =>
      unfold Continues at second third
      unfold extend
      omega
  | four lowest highest second long last third fourth =>
      unfold Continues at second third fourth
      unfold extend
      omega

theorem SpellsCode.encode_eq {n : Nat} {bytes : List UInt8} (spells : SpellsCode n bytes) :
    String.utf8EncodeChar (Char.ofNat n) = bytes := by
  have value := toNat_ofNat spells.isValidChar
  unfold String.utf8EncodeChar
  rw [value]
  cases spells with
  | one small => rw [if_pos small, UInt8.ofNat_toNat]
  | @two first second lowest highest inside =>
      unfold Continues at inside
      unfold extend
      rw [if_neg (by omega), if_pos (by omega), @ofNat_eq first _ (by omega),
        @ofNat_eq second _ (by omega)]
  | @three first second third lowest highest inside long surrogate last =>
      unfold Continues at inside last
      unfold extend
      rw [if_neg (by omega), if_neg (by omega), if_pos (by omega), @ofNat_eq first _ (by omega),
        @ofNat_eq second _ (by omega), @ofNat_eq third _ (by omega)]
  | @four first second third fourth lowest highest inside long highestSecond next last =>
      unfold Continues at inside next last
      unfold extend
      rw [if_neg (by omega), if_neg (by omega), if_neg (by omega), @ofNat_eq first _ (by omega),
        @ofNat_eq second _ (by omega), @ofNat_eq third _ (by omega), @ofNat_eq fourth _ (by omega)]

theorem toNat_ofNat_of_lt {n : Nat} (small : n < 256) : (UInt8.ofNat n).toNat = n :=
  UInt8.toNat_ofNat_of_lt' small

/-- The byte of six bits of a number that continues a sequence. -/
theorem continues_ofNat (n : Nat) :
    Continues (UInt8.ofNat (n % 64 + 128)) ∧
      (UInt8.ofNat (n % 64 + 128)).toNat = n % 64 + 128 := by
  have value := toNat_ofNat_of_lt (n := n % 64 + 128) (by omega)
  refine ⟨?_, value⟩
  unfold Continues
  omega

/-- Every character is spelled by the bytes that it is written with. -/
theorem spellsCode_utf8EncodeChar (c : Char) :
    SpellsCode c.val.toNat (String.utf8EncodeChar c) := by
  have valid : c.val.toNat < 0xd800 ∨ (0xdfff < c.val.toNat ∧ c.val.toNat < 0x110000) := c.valid
  unfold String.utf8EncodeChar
  generalize c.val.toNat = n at valid
  obtain ⟨inside, last⟩ := continues_ofNat n
  obtain ⟨insideNext, next⟩ := continues_ofNat (n / 64)
  obtain ⟨insideFar, far⟩ := continues_ofNat (n / 4096)
  dsimp only
  split
  case isTrue one =>
    have lead := toNat_ofNat_of_lt (n := n) (by omega)
    have spelled := @SpellsCode.one (UInt8.ofNat n) (by omega)
    rwa [lead] at spelled
  case isFalse =>
    split
    case isTrue two =>
      have lead := toNat_ofNat_of_lt (n := n / 64 % 32 + 192) (by omega)
      have spelled := @SpellsCode.two (UInt8.ofNat (n / 64 % 32 + 192)) _ (by omega) (by omega)
        inside
      have code : extend (n / 64 % 32 + 192 - 0xc0) (UInt8.ofNat (n % 64 + 128)) = n := by
        unfold extend
        omega
      rwa [lead, code] at spelled
    case isFalse =>
      split
      case isTrue three =>
        have lead := toNat_ofNat_of_lt (n := n / 4096 % 16 + 224) (by omega)
        have spelled := @SpellsCode.three (UInt8.ofNat (n / 4096 % 16 + 224)) _ _ (by omega)
          (by omega) insideNext (by omega) (by omega) inside
        have code : extend (extend (n / 4096 % 16 + 224 - 0xe0)
            (UInt8.ofNat (n / 64 % 64 + 128))) (UInt8.ofNat (n % 64 + 128)) = n := by
          unfold extend
          omega
        rwa [lead, code] at spelled
      case isFalse four =>
        have lead := toNat_ofNat_of_lt (n := n / 262144 % 8 + 240) (by omega)
        have spelled := @SpellsCode.four (UInt8.ofNat (n / 262144 % 8 + 240)) _ _ _ (by omega)
          (by omega) insideFar (by omega) (by omega) insideNext inside
        have code : extend (extend (extend (n / 262144 % 8 + 240 - 0xf0)
            (UInt8.ofNat (n / 4096 % 64 + 128))) (UInt8.ofNat (n / 64 % 64 + 128)))
              (UInt8.ofNat (n % 64 + 128)) = n := by
          unfold extend
          omega
        rwa [lead, code] at spelled

/-! The table and the scan. -/

section

variable {b : UInt8} {c : Char} {bytes rest : List UInt8} {found : List (Option Char)}
  {opened : Partial}

theorem scan_cons (opened : Option Partial) (b : UInt8) (rest : List UInt8) :
    scan opened (b :: rest) = (advance opened b).1 ++ scan (advance opened b).2 rest := rfl

theorem start_one (highest : b.toNat ≤ 0x7f) :
    start b = ([some (Char.ofNat b.toNat)], none) := by
  simp only [start, UInt8.lt_iff_toNat_lt, UInt8.reduceToNat]
  rw [if_pos (by omega)]

theorem start_two (lowest : 0xc2 ≤ b.toNat) (highest : b.toNat ≤ 0xdf) :
    start b = ([], some ⟨b.toNat - 0xc0, 1, 0x80, 0xbf⟩) := by
  simp only [start, UInt8.lt_iff_toNat_lt, UInt8.reduceToNat]
  rw [if_neg (by omega), if_neg (by omega), if_pos (by omega)]

theorem start_three (lowest : 0xe0 ≤ b.toNat) (highest : b.toNat ≤ 0xef) :
    start b = ([], some ⟨b.toNat - 0xe0, 2, if b.toNat = 0xe0 then 0xa0 else 0x80,
      if b.toNat = 0xed then 0x9f else 0xbf⟩) := by
  simp only [start, UInt8.lt_iff_toNat_lt, UInt8.reduceToNat, ← UInt8.toNat_inj]
  grind

theorem start_four (lowest : 0xf0 ≤ b.toNat) (highest : b.toNat ≤ 0xf4) :
    start b = ([], some ⟨b.toNat - 0xf0, 3, if b.toNat = 0xf0 then 0x90 else 0x80,
      if b.toNat = 0xf4 then 0x8f else 0xbf⟩) := by
  simp only [start, UInt8.lt_iff_toNat_lt, UInt8.reduceToNat, ← UInt8.toNat_inj]
  grind

/-- No other byte starts a sequence. -/
theorem start_none (above : 0x7f < b.toNat) (noTwo : ¬ (0xc2 ≤ b.toNat ∧ b.toNat ≤ 0xdf))
    (noThree : ¬ (0xe0 ≤ b.toNat ∧ b.toNat ≤ 0xef))
    (noFour : ¬ (0xf0 ≤ b.toNat ∧ b.toNat ≤ 0xf4)) : start b = ([none], none) := by
  simp only [start, UInt8.lt_iff_toNat_lt, UInt8.reduceToNat, ← UInt8.toNat_inj]
  grind

theorem scan_last (inRange : opened.lowest ≤ b ∧ b ≤ opened.highest) (last : opened.missing = 1) :
    scan (some opened) (b :: rest) =
      some (Char.ofNat (extend opened.value b)) :: scan none rest := by
  rw [scan_cons, advance]
  simp only [if_pos inRange, last, if_pos (Nat.le_refl 1)]
  rfl

theorem scan_next (inRange : opened.lowest ≤ b ∧ b ≤ opened.highest)
    (further : 1 < opened.missing) :
    scan (some opened) (b :: rest) =
      scan (some ⟨extend opened.value b, opened.missing - 1, 0x80, 0xbf⟩) rest := by
  rw [scan_cons, advance]
  simp only [if_pos inRange, if_neg (Nat.not_le.mpr further)]
  rfl

/-- What comes out of an open sequence as a character goes on with a byte in its range. -/
theorem exists_of_scan_opened (read : scan (some opened) bytes = some c :: found) :
    ∃ b rest, bytes = b :: rest ∧ opened.lowest ≤ b ∧ b ≤ opened.highest := by
  cases bytes with
  | nil => cases read
  | cons b rest =>
      by_cases inRange : opened.lowest ≤ b ∧ b ≤ opened.highest
      · exact ⟨b, rest, rfl, inRange⟩
      · rw [scan_cons, advance] at read
        simp only [if_neg inRange] at read
        cases read

theorem continues_iff : Continues b ↔ 0x80 ≤ b ∧ b ≤ 0xbf := by
  simp only [Continues, UInt8.le_iff_toNat_le, UInt8.reduceToNat]

/-- The range of the second byte, as the scan has it and as the table does. -/
theorem inRange_iff {low high : Prop} [Decidable low] [Decidable high] {lowest highest : UInt8}
    (above : 0x80 ≤ lowest) (below : highest ≤ 0xbf) :
    ((if low then lowest else 0x80) ≤ b ∧ b ≤ (if high then highest else 0xbf)) ↔
      Continues b ∧ (low → lowest ≤ b) ∧ (high → b ≤ highest) := by
  simp only [Continues, UInt8.le_iff_toNat_le, apply_ite UInt8.toNat, UInt8.reduceToNat]
    at above below ⊢
  by_cases isLow : low <;> by_cases isHigh : high <;> simp [isLow, isHigh] <;> omega

end

theorem SpellsCode.scan_append {n : Nat} {bytes : List UInt8} (spells : SpellsCode n bytes)
    (rest : List UInt8) : scan none (bytes ++ rest) = some (Char.ofNat n) :: scan none rest := by
  cases spells with
  | one small =>
      rw [List.singleton_append, scan_cons, advance, start_one small]
      rfl
  | two lowest highest second =>
      rw [List.cons_append, scan_cons, advance, start_two lowest highest]
      exact scan_last (continues_iff.mp second) rfl
  | three lowest highest second long surrogate third =>
      rw [List.cons_append, scan_cons, advance, start_three lowest highest]
      refine (scan_next ?_ (Nat.lt_succ_self 1)).trans (scan_last (continues_iff.mp third) rfl)
      exact (inRange_iff (by decide) (by decide)).mpr ⟨second, long, surrogate⟩
  | four lowest highest second long last third fourth =>
      rw [List.cons_append, scan_cons, advance, start_four lowest highest]
      have further : 1 < 3 := by decide
      refine (scan_next ?_ further).trans ?_
      · exact (inRange_iff (by decide) (by decide)).mpr ⟨second, long, last⟩
      · refine (scan_next (continues_iff.mp third) (Nat.lt_succ_self 1)).trans ?_
        exact scan_last (continues_iff.mp fourth) rfl

/-- A character comes only out of its own bytes. -/
theorem exists_of_scan {c : Char} {bytes : List UInt8} {found : List (Option Char)}
    (read : scan none bytes = some c :: found) :
    ∃ n front rest, SpellsCode n front ∧ c = Char.ofNat n ∧ bytes = front ++ rest ∧
      scan none rest = found := by
  cases bytes with
  | nil => cases read
  | cons lead bytes =>
      by_cases one : lead.toNat ≤ 0x7f
      · rw [scan_cons, advance, start_one one] at read
        cases read
        exact ⟨lead.toNat, [lead], bytes, .one one, rfl, rfl, rfl⟩
      by_cases two : 0xc2 ≤ lead.toNat ∧ lead.toNat ≤ 0xdf
      · rw [scan_cons, advance, start_two two.1 two.2] at read
        obtain ⟨second, rest, rfl, inRange⟩ := exists_of_scan_opened read
        obtain ⟨same, behind⟩ := List.cons.inj ((scan_last inRange rfl).symm.trans read)
        refine ⟨_, [lead, second], rest, .two two.1 two.2 (continues_iff.mpr inRange), ?_, rfl,
          behind⟩
        exact (Option.some.inj same).symm
      by_cases three : 0xe0 ≤ lead.toNat ∧ lead.toNat ≤ 0xef
      · rw [scan_cons, advance, start_three three.1 three.2] at read
        obtain ⟨second, _, rfl, inRange⟩ := exists_of_scan_opened read
        have read := (scan_next inRange (Nat.lt_succ_self 1)).symm.trans read
        obtain ⟨third, rest, rfl, inRangeNext⟩ := exists_of_scan_opened read
        obtain ⟨same, behind⟩ := List.cons.inj ((scan_last inRangeNext rfl).symm.trans read)
        obtain ⟨inside, long, surrogate⟩ := (inRange_iff (by decide) (by decide)).mp inRange
        refine ⟨_, [lead, second, third], rest, .three three.1 three.2 inside long surrogate
          (continues_iff.mpr inRangeNext), ?_, rfl, behind⟩
        exact (Option.some.inj same).symm
      by_cases four : 0xf0 ≤ lead.toNat ∧ lead.toNat ≤ 0xf4
      · rw [scan_cons, advance, start_four four.1 four.2] at read
        obtain ⟨second, _, rfl, inRange⟩ := exists_of_scan_opened read
        have read := (scan_next inRange (show 1 < 3 by decide)).symm.trans read
        obtain ⟨third, _, rfl, inRangeNext⟩ := exists_of_scan_opened read
        have read := (scan_next inRangeNext (Nat.lt_succ_self 1)).symm.trans read
        obtain ⟨fourth, rest, rfl, inRangeLast⟩ := exists_of_scan_opened read
        obtain ⟨same, behind⟩ := List.cons.inj ((scan_last inRangeLast rfl).symm.trans read)
        obtain ⟨inside, long, last⟩ := (inRange_iff (by decide) (by decide)).mp inRange
        refine ⟨_, [lead, second, third, fourth], rest, .four four.1 four.2 inside long last
          (continues_iff.mpr inRangeNext) (continues_iff.mpr inRangeLast), ?_, rfl, behind⟩
        exact (Option.some.inj same).symm
      · rw [scan_cons, advance, start_none (Nat.lt_of_not_le one) two three four] at read
        cases read

/-- Behind an ill-formed stretch the scan goes on with what is left of the bytes. -/
theorem exists_of_scan_opened_eq_none {opened : Partial} {bytes : List UInt8}
    {found : List (Option Char)} (read : scan (some opened) bytes = none :: found) :
    ∃ front rest, bytes = front ++ rest ∧ scan none rest = found := by
  induction bytes generalizing opened with
  | nil =>
      cases read
      exact ⟨[], [], rfl, rfl⟩
  | cons b bytes inductionHypothesis =>
      rw [scan_cons, advance] at read
      dsimp only at read
      split at read
      case isTrue =>
        split at read
        case isTrue => cases read
        case isFalse =>
          obtain ⟨front, rest, rfl, behind⟩ := inductionHypothesis read
          exact ⟨b :: front, rest, rfl, behind⟩
      case isFalse =>
        cases read
        exact ⟨[], b :: bytes, rfl, rfl⟩

theorem start_cases (b : UInt8) :
    (∃ c, start b = ([some c], none)) ∨ start b = ([none], none) ∨
      ∃ opened, start b = ([], some opened) := by
  unfold start
  repeat' split
  all_goals simp

theorem exists_of_scan_eq_none {bytes : List UInt8} {found : List (Option Char)}
    (read : scan none bytes = none :: found) :
    ∃ front rest, bytes = front ++ rest ∧ scan none rest = found := by
  cases bytes with
  | nil => cases read
  | cons b bytes =>
      rw [scan_cons, advance] at read
      rcases start_cases b with ⟨c, started⟩ | started | ⟨opened, started⟩ <;>
        rw [started] at read
      · cases read
      · exact ⟨[b], bytes, rfl, (List.cons.inj read).2⟩
      · obtain ⟨front, rest, rfl, behind⟩ := exists_of_scan_opened_eq_none read
        exact ⟨b :: front, rest, rfl, behind⟩

/-! Texts. -/

theorem scan_opened_ne_nil (opened : Partial) (bytes : List UInt8) :
    scan (some opened) bytes ≠ [] := by
  induction bytes generalizing opened with
  | nil => exact List.cons_ne_nil none []
  | cons b bytes inductionHypothesis =>
      rw [scan_cons, advance]
      dsimp only
      split
      case isTrue =>
        split
        case isTrue => exact List.cons_ne_nil _ _
        case isFalse => exact inductionHypothesis _
      case isFalse => exact List.cons_ne_nil _ _

/-- Every byte is part of a character or of an ill-formed stretch. -/
theorem scan_ne_nil (b : UInt8) (rest : List UInt8) : scan none (b :: rest) ≠ [] := by
  intro empty
  obtain ⟨nothing, behind⟩ := List.append_eq_nil_iff.mp ((scan_cons none b rest).symm.trans empty)
  rcases start_cases b with ⟨c, started⟩ | started | ⟨opened, started⟩ <;>
    rw [advance, started] at nothing behind
  · cases nothing
  · cases nothing
  · exact scan_opened_ne_nil opened rest behind

theorem scan_encode_append (text : List Char) (rest : List UInt8) :
    scan none (encode text ++ rest) = text.map some ++ scan none rest := by
  induction text with
  | nil => rfl
  | cons c text inductionHypothesis =>
      have single := (spellsCode_utf8EncodeChar c).scan_append (encode text ++ rest)
      have same : Char.ofNat c.val.toNat = c := Char.ofNat_toNat c
      rw [same, inductionHypothesis, ← List.append_assoc] at single
      exact single

theorem decodeLossy_encode (text : List Char) : decodeLossy (encode text) = text := by
  have read := scan_encode_append text []
  rw [List.append_nil, show scan none [] = [] from rfl, List.append_nil] at read
  rw [decodeLossy, read, List.map_map]
  exact List.map_id text

theorem mapM_id_eq_some_iff {read : List (Option Char)} {text : List Char} :
    read.mapM id = some text ↔ read = text.map some := by
  rw [mapM_eq_some_iff, ← List.forall₂_eq_eq_eq, List.forall₂_map_right_iff]
  rfl

/-- Bytes are well formed exactly if they are the spelling of a text, and then of this one. -/
theorem decode?_eq_some_iff {bytes : List UInt8} {text : List Char} :
    decode? bytes = some text ↔ bytes = encode text := by
  rw [decode?, mapM_id_eq_some_iff]
  constructor
  · intro read
    induction text generalizing bytes with
    | nil =>
        cases bytes with
        | nil => rfl
        | cons b bytes => exact absurd read (scan_ne_nil b bytes)
    | cons c text inductionHypothesis =>
        obtain ⟨n, front, rest, spells, rfl, rfl, behind⟩ := exists_of_scan read
        rw [inductionHypothesis behind, ← spells.encode_eq]
        rfl
  · rintro rfl
    have read := scan_encode_append text []
    rwa [List.append_nil, show scan none [] = [] from rfl, List.append_nil] at read

end CertificateAudit.Text.Utf8
