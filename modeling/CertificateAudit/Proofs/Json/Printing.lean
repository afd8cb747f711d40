import CertificateAudit.Json.Printer
import CertificateAudit.Proofs.Json.Reading
import Mathlib.Data.List.Forall2

/-!
The printer keeps to the grammar: what it writes for a value spells that value, if every string
in it has a text and every number is spelled as one (`spells_pretty`). What is printed is
therefore read back as it was (`read?_print`).
-/

namespace CertificateAudit.Json

open CertificateAudit.Text

/-- The property holds of the value and of every value inside it. -/
inductive Everywhere (property : Json → Prop) : Json → Prop where
  | null : property .null → Everywhere property .null
  | bool {value} : property (.bool value) → Everywhere property (.bool value)
  | number {spelling} : property (.number spelling) → Everywhere property (.number spelling)
  | string {text} : property (.string text) → Everywhere property (.string text)
  | array {items} : property (.array items) → (∀ item ∈ items, Everywhere property item) →
      Everywhere property (.array items)
  | object {members} : property (.object members) →
      (∀ member ∈ members, Everywhere property member.2) → Everywhere property (.object members)

/-- No object has two members of one name. -/
def HasDistinctKeys : Json → Prop :=
  Everywhere fun
    | .object members => (members.map Prod.fst).Nodup
    | _ => True

/-- Every string and every name has a text, and every number is spelled as a number. -/
def IsPrintable : Json → Prop :=
  Everywhere fun
    | .number spelling => IsNumber spelling
    | .string text => text.isSome
    | .object members => ∀ member ∈ members, member.1.isSome
    | _ => True

/-! Strings. -/

/-- What a character of a literal is printed as: a control character without a short escape is
given by its number. -/
def pieceOf (c : Char) : Piece :=
  if ' ' ≤ c ∨ c ∈ ['\x08', '\x0c', '\n', '\r', '\t'] then .char c else .unit c.toNat

theorem hexUnit?_control : ∀ n < 0x20,
    hexUnit? '0' '0' (Hex.lowerDigits.getD (n / 16) '0') (Hex.lowerDigits.getD (n % 16) '0') =
      some n := by
  decide

theorem spellsPiece_escape (c : Char) : SpellsPiece (pieceOf c) (escape c) := by
  unfold escape
  split
  next => exact .short rfl
  next => exact .short rfl
  next => exact .short rfl
  next => exact .short rfl
  next => exact .short rfl
  next => exact .short rfl
  next => exact .short rfl
  next noQuote noEscape noBackspace noFeed noLine noReturn noTab =>
    by_cases control : c < ' '
    · have small : c.toNat < 0x20 := control
      have value : (UInt8.ofNat c.toNat).toNat = c.toNat :=
        UInt8.toNat_ofNat_of_lt' (Nat.lt_trans small (by decide))
      have unit : pieceOf c = .unit c.toNat := by
        apply if_neg
        simp only [List.mem_cons, List.not_mem_nil, or_false, not_or]
        exact ⟨Char.not_le.mpr control, noBackspace, noFeed, noLine, noReturn, noTab⟩
      rw [if_pos control, unit]
      refine .code ?_
      rw [value]
      exact hexUnit?_control c.toNat small
    · have printable : ' ' ≤ c := Char.not_lt.mp control
      have plain : pieceOf c = .char c := if_pos (.inl printable)
      rw [if_neg control, plain]
      exact .plain printable noQuote noEscape

theorem textOfPieces?_pieceOf (c : Char) (rest : List Piece) :
    textOfPieces? (pieceOf c :: rest) = (textOfPieces? rest).map (c :: ·) := by
  unfold pieceOf
  split
  case isTrue => rfl
  case isFalse other =>
    have small : c.toNat < 0x20 := Char.not_le.mp (not_or.mp other).1
    have single : c.toNat < 0xd800 := Nat.lt_trans small (by decide)
    rw [textOfPieces?.eq_def]
    simp only [if_pos (Or.inl single), Char.ofNat_toNat]

theorem spellsString_quote (text : String) : SpellsString (some text) (quote text.toList) := by
  have spelled : ∀ characters : List Char,
      SpellsPieces (characters.map pieceOf) (characters.flatMap escape) ∧
        textOfPieces? (characters.map pieceOf) = some characters := by
    intro characters
    induction characters with
    | nil => exact ⟨.done, rfl⟩
    | cons c characters inductionHypothesis =>
        refine ⟨.next (spellsPiece_escape c) inductionHypothesis.1, ?_⟩
        rw [List.map_cons, textOfPieces?_pieceOf, inductionHypothesis.2]
        rfl
  obtain ⟨pieces, meaning⟩ := spelled text.toList
  have literal := SpellsString.quoted pieces
  rw [meaning, Option.map_some, String.ofList_toList] at literal
  exact literal

/-! Numbers. -/

/-- Only zero is written with a zero in front. -/
theorem eq_zero_of_head_toDigits {n : Nat} (zero : (Nat.toDigits 10 n).head? = some '0') :
    n = 0 := by
  induction n using Nat.strongRecOn with
  | ind n inductionHypothesis =>
      by_cases small : n < 10
      · have digits : ∀ n < 10, Nat.digitChar n = '0' → n = 0 := by decide
        rw [Nat.toDigits_of_lt_base small] at zero
        exact digits n small (Option.some.inj zero)
      · rw [Nat.toDigits_eq_if (by decide), if_neg small,
          List.head?_append_of_ne_nil _ Nat.toDigits_ne_nil] at zero
        have front := inductionHypothesis (n / 10) (by omega) zero
        omega

theorem isWhole_toDigits (n : Nat) : IsWhole (Nat.toDigits 10 n) := by
  refine ⟨⟨Nat.toDigits_ne_nil, ?_⟩, ?_⟩
  · intro c membership
    have digit := Nat.isDigit_of_mem_toDigits (by decide) (by decide) membership
    simpa [Char.isDigit, Decimal.isDigit, Char.le_def] using digit
  · intro zero
    rw [eq_zero_of_head_toDigits zero, Nat.toDigits_zero]

theorem toList_toString_ofNat (n : Nat) :
    (toString (Int.ofNat n)).toList = Nat.toDigits 10 n := by
  simp [Int.toString_eq_repr, Int.repr_eq_if, Nat.repr_eq_ofList_toDigits]

theorem toList_toString_negSucc (n : Nat) :
    (toString (Int.negSucc n)).toList = '-' :: Nat.toDigits 10 (n + 1) := by
  simp [Int.toString_eq_repr, Int.repr_eq_if, Nat.repr_eq_ofList_toDigits,
    Int.negSucc_not_nonneg]

theorem isNumber_toString (n : Int) : IsNumber (toString n).toList := by
  cases n with
  | ofNat n =>
      have number := IsNumber.positive (isWhole_toDigits n) .absent .absent
      rwa [List.append_nil, List.append_nil, ← toList_toString_ofNat] at number
  | negSucc n =>
      have number := IsNumber.negative (isWhole_toDigits (n + 1)) .absent .absent
      rwa [List.append_nil, List.append_nil, ← toList_toString_negSucc] at number

/-! Lists of things with commas between. -/

section

variable {α : Type} {spells : α → List Char → Prop}

theorem isSpaces_newLine (level : Nat) : IsSpaces (newLine level) := by
  intro c membership
  rcases List.mem_cons.mp membership with rfl | membership
  · decide
  · rw [List.eq_of_mem_replicate membership]
    decide

theorem listed_lines {value : α} {line : List Char} {values : List α}
    {lines : List (List Char)} (first : spells value line)
    (others : List.Forall₂ spells values lines) (inner outer : Nat) :
    Listed spells (value :: values) (newLine inner ++ (line ++
      (lines.flatMap (fun line => ',' :: newLine inner ++ line) ++ newLine outer))) := by
  induction others generalizing value line with
  | nil => exact .last (isSpaces_newLine inner) first (isSpaces_newLine outer)
  | @cons _ next _ lines second _ inductionHypothesis =>
      have separated := Listed.next (isSpaces_newLine inner) first isSpaces_nil
        (inductionHypothesis second)
      simpa using separated

theorem enclosed_bracketed {values : List α} {lines : List (List Char)}
    (spelled : List.Forall₂ spells values lines) (first last : Char) (level : Nat) :
    ∃ inside, bracketed first last level lines = first :: (inside ++ [last]) ∧
      Enclosed spells values inside := by
  cases spelled with
  | nil => exact ⟨[], rfl, .empty fun _ absent => absurd absent List.not_mem_nil⟩
  | cons head others =>
      refine ⟨_, ?_, .some (listed_lines head others (level + 1) level)⟩
      simp [bracketed]

end

/-! Values. -/

theorem prettyItems_eq_map (level : Nat) (items : List Json) :
    prettyItems level items = items.map (pretty level) := by
  induction items with
  | nil => rfl
  | cons item items inductionHypothesis => rw [prettyItems, inductionHypothesis, List.map_cons]

theorem prettyMembers_eq_map (level : Nat) (members : List (Option String × Json)) :
    prettyMembers level members = members.map fun (key, value) =>
      quote (key.getD "").toList ++ ':' :: ' ' :: pretty level value := by
  induction members with
  | nil => rfl
  | cons member members inductionHypothesis =>
      rw [prettyMembers, inductionHypothesis, List.map_cons]

/-- By induction on the value, at every level. -/
theorem spells_pretty {value : Json} (printable : value.IsPrintable) (level : Nat) :
    Spells value (pretty level value) := by
  induction printable generalizing level with
  | null => exact .null
  | @bool truth =>
      cases truth with
      | true => exact .yes
      | false => exact .no
  | number isNumber => exact .number isNumber
  | @string text isSome =>
      obtain ⟨text, rfl⟩ := Option.isSome_iff_exists.mp isSome
      exact .string (spellsString_quote text)
  | @array items _ _ inductionHypothesis =>
      have spelled : List.Forall₂ Spells items (prettyItems (level + 1) items) := by
        rw [prettyItems_eq_map, List.forall₂_map_right_iff, List.forall₂_same]
        exact fun item membership => inductionHypothesis item membership (level + 1)
      obtain ⟨inside, printed, enclosed⟩ := enclosed_bracketed spelled '[' ']' level
      rw [pretty, printed]
      exact .array enclosed
  | @object members named _ inductionHypothesis =>
      have spelled : List.Forall₂ (Labelled Spells) members
          (prettyMembers (level + 1) members) := by
        rw [prettyMembers_eq_map, List.forall₂_map_right_iff, List.forall₂_same]
        rintro ⟨key, value⟩ membership
        obtain ⟨key, rfl⟩ := Option.isSome_iff_exists.mp (named _ membership)
        have oneSpace : IsSpaces [' '] := by simp [IsSpaces, isSpace]
        exact .member (spellsString_quote key) isSpaces_nil oneSpace
          (inductionHypothesis _ membership (level + 1))
      obtain ⟨inside, printed, enclosed⟩ := enclosed_bracketed spelled '\x7b' '\x7d' level
      rw [pretty, printed]
      exact .object enclosed

theorem spells_print {value : Json} (printable : value.IsPrintable) :
    Spells value value.print.toList := by
  rw [print, String.toList_ofList]
  exact spells_pretty printable 0

theorem read?_print {value : Json} (printable : value.IsPrintable) :
    read? value.print = some value := by
  have read := read?_of_spells (spells_pretty printable 0) isSpaces_nil isSpaces_nil
  rwa [List.nil_append, List.append_nil] at read

end CertificateAudit.Json
