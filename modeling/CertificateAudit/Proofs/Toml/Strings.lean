import CertificateAudit.Proofs.Toml.Grammar
import Mathlib.Data.List.TakeWhile

/-!
Strings are read as the grammar has them: whatever follows the closing quotes, as long as it is not
another quote, the content comes out and the rest stays (`readText_of_spells`).
-/

namespace CertificateAudit.Toml

open CertificateAudit.Text

variable {content text rest : List Char}

/-! Blanks and line breaks. -/

theorem skipSpace_append {blanks : List Char} (blank : IsSpaces blanks) (rest : List Char) :
    skipSpace (blanks ++ rest) = skipSpace rest :=
  List.dropWhile_append_of_pos blank

theorem skipSpace_cons {c : Char} (visible : isSpace c = false) (rest : List Char) :
    skipSpace (c :: rest) = c :: rest :=
  List.dropWhile_cons_of_neg (by simp [visible])

theorem newLine?_append {ending : List Char} (breaks : IsNewLine ending) (rest : List Char) :
    newLine? (ending ++ rest) = some rest := by
  rcases breaks with rfl | rfl <;> rfl

theorem newLine?_cons {c : Char} (noFeed : c ≠ '\n') (noReturn : c ≠ '\r') (rest : List Char) :
    newLine? (c :: rest) = none := by
  unfold newLine?
  split
  next same => exact absurd (List.cons.inj same).1 noFeed
  next same => exact absurd (List.cons.inj same).1 noReturn
  next => rfl

theorem ne_of_isPlain {c : Char} (plain : isPlain c = true) : c ≠ '\n' ∧ c ≠ '\r' := by
  constructor
  · rintro rfl
    exact absurd plain (by decide)
  · rintro rfl
    exact absurd plain (by decide)

theorem exists_newLine_cons {ending : List Char} (breaks : IsNewLine ending) :
    ∃ first others, ending = first :: others ∧ isSpace first = false ∧ first ≠ '"' ∧
      first ≠ '\'' := by
  rcases breaks with rfl | rfl
  · exact ⟨'\n', [], rfl, by decide⟩
  · exact ⟨'\r', ['\n'], rfl, by decide⟩

theorem skipBlankLines_of_startsVisible (visible : StartsVisible text) (rounds : Nat) :
    skipBlankLines rounds text = text := by
  cases rounds with
  | zero => rfl
  | succ rounds =>
      cases text with
      | nil => rfl
      | cons c text =>
          obtain ⟨noSpace, noFeed, noReturn⟩ := visible c rfl
          simp [skipBlankLines, noSpace, newLine?_cons noFeed noReturn]

theorem skipBlankLines_append {gap : List Char} (blank : IsBlankLines gap)
    (visible : StartsVisible text) {rounds : Nat} (enough : gap.length ≤ rounds) :
    skipBlankLines rounds (gap ++ text) = text := by
  induction blank generalizing rounds with
  | done => exact skipBlankLines_of_startsVisible visible rounds
  | @space c gap isBlank _ inductionHypothesis =>
      rw [List.length_cons] at enough
      obtain ⟨rounds, rfl⟩ := Nat.exists_eq_add_of_le' (Nat.le_of_add_left_le enough)
      simp only [List.cons_append, skipBlankLines, isBlank, if_true]
      exact inductionHypothesis (by omega)
  | @newLine ending gap breaks _ inductionHypothesis =>
      obtain ⟨first, others, rfl, noSpace, _⟩ := exists_newLine_cons breaks
      simp only [List.length_append, List.length_cons] at enough
      obtain ⟨rounds, rfl⟩ : ∃ fewer, rounds = fewer + 1 := ⟨rounds - 1, by omega⟩
      have broken := newLine?_append breaks (gap ++ text)
      simp only [List.cons_append, List.append_assoc] at broken ⊢
      simp only [skipBlankLines, noSpace, broken]
      exact inductionHypothesis (by omega)

theorem continued?_append {blanks ending gap : List Char} (blank : IsSpaces blanks)
    (breaks : IsNewLine ending) (blankLines : IsBlankLines gap) (visible : StartsVisible text) :
    continued? (blanks ++ (ending ++ (gap ++ text))) = some text := by
  obtain ⟨first, others, rfl, noSpace, _⟩ := exists_newLine_cons breaks
  have front : (blanks ++ (first :: others ++ (gap ++ text))).dropWhile isSpace =
      first :: others ++ (gap ++ text) := by
    rw [List.dropWhile_append_of_pos blank]
    exact List.dropWhile_cons_of_neg (by simp [noSpace])
  rw [continued?, front, newLine?_append breaks, Option.map_some, skipBlankLines_append blankLines
    visible (by rw [List.length_append]; exact Nat.le_add_right _ _)]

/-! Escaped characters. -/

theorem readHexDigits_append {digits : List Char}
    (all : ∀ c ∈ digits, (Hex.digit? c).isSome = true) (value : Nat) (rest : List Char) :
    readHexDigits digits.length value (digits ++ rest) =
      some (digits.foldl (fun n c => n * 16 + (Hex.digit? c).getD 0) value, rest) := by
  induction digits generalizing value with
  | nil => rfl
  | cons c digits inductionHypothesis =>
      obtain ⟨digit, isDigit⟩ := Option.isSome_iff_exists.mp (all c List.mem_cons_self)
      have others := fun d membership => all d (List.mem_cons_of_mem c membership)
      simp only [List.length_cons, List.cons_append, readHexDigits, isDigit, List.foldl_cons,
        Option.getD_some]
      exact inductionHypothesis others _

theorem charOfNumber?_toNat (c : Char) : charOfNumber? c.toNat = some c := by
  have valid : c.toNat < 0xd800 ∨ (0xe000 ≤ c.toNat ∧ c.toNat < 0x110000) := by
    have isChar := c.valid
    unfold UInt32.isValidChar Nat.isValidChar at isChar
    exact isChar.imp_right fun ⟨above, below⟩ => ⟨above, below⟩
  rw [charOfNumber?, if_pos valid, Char.ofNat_toNat]

theorem readEscape_of_spells {c : Char} {escape : List Char} (spells : SpellsEscape c escape)
    (rest : List Char) : readEscape (escape ++ rest) = some (c, rest) := by
  cases spells with
  | letter known =>
      simp only [escapeLetters, List.mem_cons, Prod.mk.injEq, List.not_mem_nil, or_false] at known
      rcases known with ⟨rfl, rfl⟩ | ⟨rfl, rfl⟩ | ⟨rfl, rfl⟩ | ⟨rfl, rfl⟩ | ⟨rfl, rfl⟩ |
        ⟨rfl, rfl⟩ | ⟨rfl, rfl⟩ <;> rfl
  | @short _ digits four number =>
      have read := readHexDigits_append number.1 0 rest
      rw [four, ← valueInBase, number.2] at read
      simp only [List.cons_append, readEscape, read, Option.bind_eq_bind, Option.bind_some,
        charOfNumber?_toNat]
      rfl
  | @long _ digits eight number =>
      have read := readHexDigits_append number.1 0 rest
      rw [eight, ← valueInBase, number.2] at read
      simp only [List.cons_append, readEscape, read, Option.bind_eq_bind, Option.bind_some,
        charOfNumber?_toNat]
      rfl

theorem continued?_escape {c : Char} {escape : List Char} (spells : SpellsEscape c escape)
    (rest : List Char) : continued? (escape ++ rest) = none := by
  have visible (letter : Char) (others : List Char) (noSpace : isSpace letter = false)
      (noFeed : letter ≠ '\n') (noReturn : letter ≠ '\r') :
      continued? (letter :: others) = none := by
    rw [continued?, List.dropWhile_cons_of_neg (by simp [noSpace]), newLine?_cons noFeed noReturn]
    rfl
  cases spells with
  | letter known =>
      simp only [escapeLetters, List.mem_cons, Prod.mk.injEq, List.not_mem_nil, or_false] at known
      rcases known with
        ⟨rfl, _⟩ | ⟨rfl, _⟩ | ⟨rfl, _⟩ | ⟨rfl, _⟩ | ⟨rfl, _⟩ | ⟨rfl, _⟩ | ⟨rfl, _⟩ <;>
        exact visible _ _ (by decide) (by decide) (by decide)
  | short => exact visible _ _ (by decide) (by decide) (by decide)
  | long => exact visible _ _ (by decide) (by decide) (by decide)

/-! Strings on one line. -/

theorem readBasic_plain {c : Char} (plain : isPlain c = true) (noQuote : c ≠ '"')
    (noEscape : c ≠ '\\') (rounds : Nat) (rest : List Char) :
    readBasic (rounds + 1) (c :: rest) =
      (readBasic rounds rest).map fun (content, rest) => (c :: content, rest) := by
  rw [readBasic.eq_def]
  dsimp only
  split
  next same => cases same
  next same => exact absurd (List.cons.inj same).1 noQuote
  next same => exact absurd (List.cons.inj same).1 noEscape
  next same =>
    cases same
    rw [if_pos plain]
    cases readBasic rounds rest <;> rfl

theorem readBasic_of_spells (spells : SpellsBasic content text) {rounds : Nat}
    (enough : text.length < rounds) (rest : List Char) :
    readBasic rounds (text ++ '"' :: rest) = some (content, rest) := by
  induction spells generalizing rounds with
  | done =>
      obtain ⟨rounds, rfl⟩ := Nat.exists_eq_add_of_lt enough
      rfl
  | plain plain noQuote noEscape _ inductionHypothesis =>
      rw [List.length_cons] at enough
      obtain ⟨rounds, rfl⟩ : ∃ fewer, rounds = fewer + 1 := ⟨rounds - 1, by omega⟩
      rw [List.cons_append, readBasic_plain plain noQuote noEscape,
        inductionHypothesis (by omega)]
      rfl
  | escaped escape _ inductionHypothesis =>
      simp only [List.length_cons, List.length_append] at enough
      obtain ⟨rounds, rfl⟩ : ∃ fewer, rounds = fewer + 1 := ⟨rounds - 1, by omega⟩
      simp only [List.cons_append, List.append_assoc]
      simp only [readBasic, readEscape_of_spells escape, Option.bind_eq_bind, Option.bind_some,
        inductionHypothesis (show _ < rounds by omega)]
      rfl

theorem readLiteral_of_isLiteral (literal : IsLiteral text) (rest : List Char) :
    readLiteral (text ++ '\'' :: rest) = some (text, rest) := by
  induction text with
  | nil => rfl
  | cons c text inductionHypothesis =>
      obtain ⟨plain, noQuote⟩ := literal c List.mem_cons_self
      have others : IsLiteral text := fun d membership =>
        literal d (List.mem_cons_of_mem c membership)
      rw [List.cons_append, readLiteral.eq_def]
      split
      next same => cases same
      next same => exact absurd (List.cons.inj same).1 noQuote
      next same =>
        cases same
        rw [if_pos plain, inductionHypothesis others]
        rfl

/-! Strings over several lines. -/

section

variable {quote : Char}

/-- The text does not start with the quote. -/
def Leaves (quote : Char) (text : List Char) : Prop :=
  ∀ c ∈ text.head?, c ≠ quote

theorem takeWhile_quotes (leaves : Leaves quote rest) (count : Nat) :
    (List.replicate count quote ++ rest).takeWhile (· == quote) = List.replicate count quote := by
  have stops : rest.takeWhile (· == quote) = [] := by
    cases rest with
    | nil => rfl
    | cons c rest => exact List.takeWhile_cons_of_neg (by simp [leaves c rfl])
  rw [List.takeWhile_append_of_pos (by simp), stops, List.append_nil]

theorem closing?_few (leaves : Leaves quote rest) {count : Nat} (few : count < 3) :
    closing? quote (List.replicate count quote ++ rest) = none := by
  have short : ¬ 3 ≤ min 5 count := by omega
  rw [closing?, takeWhile_quotes leaves, List.length_replicate, if_neg short]

theorem closing?_quotes (leaves : Leaves quote rest) {count : Nat} (few : count ≤ 2) :
    closing? quote (List.replicate (count + 3) quote ++ rest) =
      some (List.replicate count quote, rest) := by
  have whole : min 5 (count + 3) = count + 3 := by omega
  have enough : 3 ≤ count + 3 := by omega
  rw [closing?, takeWhile_quotes leaves, List.length_replicate, whole, if_pos enough,
    Nat.add_sub_cancel]
  rw [List.drop_left' (List.length_replicate ..)]

/-- Behind a quote that belongs to the content, either the string goes on, or the content has its
last quotes there. -/
theorem closing?_cons (single : ¬ [quote, quote] <+: text) (leaves : Leaves quote rest) :
    closing? quote (quote :: (text ++ quote :: quote :: quote :: rest)) = none ∨
      ∃ quotes, closing? quote (text ++ quote :: quote :: quote :: rest) = some (quotes, rest) ∧
        closing? quote (quote :: (text ++ quote :: quote :: quote :: rest)) =
          some (quote :: quotes, rest) := by
  cases text with
  | nil =>
      exact .inr ⟨[], @closing?_quotes rest quote leaves 0 (by decide),
        @closing?_quotes rest quote leaves 1 (by decide)⟩
  | cons first text =>
      by_cases isQuote : first = quote
      · subst isQuote
        cases text with
        | nil =>
            exact .inr ⟨[first], @closing?_quotes rest first leaves 1 (by decide),
              @closing?_quotes rest first leaves 2 (by decide)⟩
        | cons second text =>
            left
            refine @closing?_few (second :: (text ++ _)) first ?_ 2 (by decide)
            rintro c ⟨⟩ rfl
            exact single ⟨text, rfl⟩
      · left
        refine @closing?_few (first :: (text ++ _)) quote ?_ 1 (by decide)
        rintro c ⟨⟩
        exact isQuote

theorem closing?_of_leaves (leaves : Leaves quote text) : closing? quote text = none :=
  @closing?_few text quote leaves 0 (by decide)

end

attribute [local simp] readBasicLines readLiteralLines

theorem readBasicLines_closed {rounds : Nat} (closed : closing? '"' text = some (content, rest)) :
    readBasicLines (rounds + 1) text = some (content, rest) := by
  simp only [readBasicLines, closed]

theorem readBasicLines_newLine {rounds : Nat} (opens : closing? '"' text = none)
    (breaks : newLine? text = some rest) :
    readBasicLines (rounds + 1) text =
      (readBasicLines rounds rest).map fun (content, rest) => ('\n' :: content, rest) := by
  simp only [readBasicLines, opens, breaks]
  cases readBasicLines rounds rest <;> rfl

theorem readBasicLines_plain {c : Char} {rounds : Nat} (opens : closing? '"' (c :: text) = none)
    (plain : isPlain c = true) (noEscape : c ≠ '\\') :
    readBasicLines (rounds + 1) (c :: text) =
      (readBasicLines rounds text).map fun (content, rest) => (c :: content, rest) := by
  obtain ⟨noFeed, noReturn⟩ := ne_of_isPlain plain
  rw [readBasicLines.eq_def]
  dsimp only
  rw [opens, newLine?_cons noFeed noReturn]
  split
  next same => cases same
  next same => cases same
  next same => exact absurd (List.cons.inj same).1 noEscape
  next same =>
    cases same
    rw [if_pos plain]
    cases readBasicLines rounds text <;> rfl
  next same => cases same

theorem readBasicLines_escaped {c : Char} {rounds : Nat} (goesOn : continued? text = none)
    (escape : readEscape text = some (c, rest)) :
    readBasicLines (rounds + 1) ('\\' :: text) =
      (readBasicLines rounds rest).map fun (content, rest) => (c :: content, rest) := by
  have opens : closing? '"' ('\\' :: text) = none :=
    closing?_of_leaves (by rintro c ⟨⟩; decide)
  have noBreak : newLine? ('\\' :: text) = none := newLine?_cons (by decide) (by decide) text
  simp only [readBasicLines, opens, noBreak, goesOn, escape, Option.bind_eq_bind,
    Option.bind_some]
  cases readBasicLines rounds rest <;> rfl

theorem readBasicLines_continued {rounds : Nat} (goesOn : continued? text = some rest) :
    readBasicLines (rounds + 1) ('\\' :: text) = readBasicLines rounds rest := by
  have opens : closing? '"' ('\\' :: text) = none :=
    closing?_of_leaves (by rintro c ⟨⟩; decide)
  have noBreak : newLine? ('\\' :: text) = none := newLine?_cons (by decide) (by decide) text
  simp only [readBasicLines, opens, noBreak, goesOn]

theorem startsVisible_append {quote : Char} (visible : StartsVisible text)
    (isVisible : isSpace quote = false ∧ quote ≠ '\n' ∧ quote ≠ '\r') (rest : List Char) :
    StartsVisible (text ++ quote :: rest) := by
  cases text with
  | nil =>
      rintro c ⟨⟩
      exact isVisible
  | cons c text => exact visible

theorem readBasicLines_of_spells (spells : SpellsBasicLines content text) {rounds : Nat}
    (enough : text.length < rounds) (leaves : Leaves '"' rest) :
    readBasicLines rounds (text ++ '"' :: '"' :: '"' :: rest) = some (content, rest) := by
  obtain ⟨rounds, rfl⟩ : ∃ fewer, rounds = fewer + 1 := ⟨rounds - 1, by omega⟩
  induction spells generalizing rounds with
  | done => exact readBasicLines_closed (closing?_quotes leaves (Nat.zero_le 2))
  | @newLine ending content text breaks _ inductionHypothesis =>
      obtain ⟨first, others, rfl, _, noQuote, _⟩ := exists_newLine_cons breaks
      simp only [List.length_append, List.length_cons] at enough
      obtain ⟨rounds, rfl⟩ : ∃ fewer, rounds = fewer + 1 := ⟨rounds - 1, by omega⟩
      have opens : closing? '"' (first :: others ++ (text ++ '"' :: '"' :: '"' :: rest)) = none :=
        closing?_of_leaves (by rintro c ⟨⟩; exact noQuote)
      rw [List.append_assoc, readBasicLines_newLine opens (newLine?_append breaks _),
        inductionHypothesis _ (by omega)]
      rfl
  | @quote content text single _ inductionHypothesis =>
      rw [List.length_cons] at enough
      obtain ⟨rounds, rfl⟩ : ∃ fewer, rounds = fewer + 1 := ⟨rounds - 1, by omega⟩
      have read := inductionHypothesis rounds (by omega)
      rw [List.cons_append]
      rcases closing?_cons single leaves with opens | ⟨quotes, behind, closed⟩
      · rw [readBasicLines_plain opens (by decide) (by decide), read]
        rfl
      · rw [readBasicLines_closed behind] at read
        cases read
        exact readBasicLines_closed closed
  | @plain c content text plain noQuote noEscape _ inductionHypothesis =>
      rw [List.length_cons] at enough
      obtain ⟨rounds, rfl⟩ : ∃ fewer, rounds = fewer + 1 := ⟨rounds - 1, by omega⟩
      have opens : closing? '"' (c :: (text ++ '"' :: '"' :: '"' :: rest)) = none :=
        closing?_of_leaves (by rintro c ⟨⟩; exact noQuote)
      rw [List.cons_append, readBasicLines_plain opens plain noEscape,
        inductionHypothesis _ (by omega)]
      rfl
  | @escaped c escape content text spelled _ inductionHypothesis =>
      simp only [List.length_cons, List.length_append] at enough
      obtain ⟨rounds, rfl⟩ : ∃ fewer, rounds = fewer + 1 := ⟨rounds - 1, by omega⟩
      rw [List.cons_append, List.append_assoc, readBasicLines_escaped
        (continued?_escape spelled _) (readEscape_of_spells spelled _),
        inductionHypothesis _ (by omega)]
      rfl
  | @continued blanks ending gap content text blank breaks blankLines visible _
      inductionHypothesis =>
      simp only [List.length_cons, List.length_append] at enough
      obtain ⟨rounds, rfl⟩ : ∃ fewer, rounds = fewer + 1 := ⟨rounds - 1, by omega⟩
      simp only [List.cons_append, List.append_assoc]
      rw [readBasicLines_continued (continued?_append blank breaks blankLines
        (startsVisible_append visible (by decide) _)), inductionHypothesis _ (by omega)]

theorem readLiteralLines_closed {rounds : Nat}
    (closed : closing? '\'' text = some (content, rest)) :
    readLiteralLines (rounds + 1) text = some (content, rest) := by
  simp only [readLiteralLines, closed]

theorem readLiteralLines_newLine {rounds : Nat} (opens : closing? '\'' text = none)
    (breaks : newLine? text = some rest) :
    readLiteralLines (rounds + 1) text =
      (readLiteralLines rounds rest).map fun (content, rest) => ('\n' :: content, rest) := by
  simp only [readLiteralLines, opens, breaks]
  cases readLiteralLines rounds rest <;> rfl

theorem readLiteralLines_plain {c : Char} {rounds : Nat}
    (opens : closing? '\'' (c :: text) = none) (plain : isPlain c = true) :
    readLiteralLines (rounds + 1) (c :: text) =
      (readLiteralLines rounds text).map fun (content, rest) => (c :: content, rest) := by
  obtain ⟨noFeed, noReturn⟩ := ne_of_isPlain plain
  simp only [readLiteralLines, opens, newLine?_cons noFeed noReturn, if_pos plain]
  cases readLiteralLines rounds text <;> rfl

theorem readLiteralLines_of_spells (spells : SpellsLiteralLines content text) {rounds : Nat}
    (enough : text.length < rounds) (leaves : Leaves '\'' rest) :
    readLiteralLines rounds (text ++ '\'' :: '\'' :: '\'' :: rest) = some (content, rest) := by
  obtain ⟨rounds, rfl⟩ : ∃ fewer, rounds = fewer + 1 := ⟨rounds - 1, by omega⟩
  induction spells generalizing rounds with
  | done => exact readLiteralLines_closed (closing?_quotes leaves (Nat.zero_le 2))
  | @newLine ending content text breaks _ inductionHypothesis =>
      obtain ⟨first, others, rfl, _, _, noQuote⟩ := exists_newLine_cons breaks
      simp only [List.length_append, List.length_cons] at enough
      obtain ⟨rounds, rfl⟩ : ∃ fewer, rounds = fewer + 1 := ⟨rounds - 1, by omega⟩
      have opens :
          closing? '\'' (first :: others ++ (text ++ '\'' :: '\'' :: '\'' :: rest)) = none :=
        closing?_of_leaves (by rintro c ⟨⟩; exact noQuote)
      rw [List.append_assoc, readLiteralLines_newLine opens (newLine?_append breaks _),
        inductionHypothesis _ (by omega)]
      rfl
  | @quote content text single _ inductionHypothesis =>
      rw [List.length_cons] at enough
      obtain ⟨rounds, rfl⟩ : ∃ fewer, rounds = fewer + 1 := ⟨rounds - 1, by omega⟩
      have read := inductionHypothesis rounds (by omega)
      rw [List.cons_append]
      rcases closing?_cons single leaves with opens | ⟨quotes, behind, closed⟩
      · rw [readLiteralLines_plain opens (by decide), read]
        rfl
      · rw [readLiteralLines_closed behind] at read
        cases read
        exact readLiteralLines_closed closed
  | @plain c content text plain noQuote _ inductionHypothesis =>
      rw [List.length_cons] at enough
      obtain ⟨rounds, rfl⟩ : ∃ fewer, rounds = fewer + 1 := ⟨rounds - 1, by omega⟩
      have opens : closing? '\'' (c :: (text ++ '\'' :: '\'' :: '\'' :: rest)) = none :=
        closing?_of_leaves (by rintro c ⟨⟩; exact noQuote)
      rw [List.cons_append, readLiteralLines_plain opens plain, inductionHypothesis _ (by omega)]
      rfl

/-! Strings of any kind. -/

theorem dropNewLine_append {opening inside : List Char} (opens : IsOpening opening inside)
    {quote : Char} (isQuote : quote ≠ '\n' ∧ quote ≠ '\r') (rest : List Char) :
    dropNewLine (opening ++ (inside ++ quote :: rest)) = inside ++ quote :: rest := by
  rcases opens with breaks | ⟨rfl, visible⟩
  · rw [dropNewLine, newLine?_append breaks]
    rfl
  · have noBreak : newLine? (inside ++ quote :: rest) = none := by
      cases inside with
      | nil => exact newLine?_cons isQuote.1 isQuote.2 rest
      | cons c inside => exact newLine?_cons (visible c rfl).1 (visible c rfl).2 _
    rw [List.nil_append, dropNewLine, noBreak]
    rfl

theorem readText_basic (single : ¬ ['"', '"'] <+: text) :
    readText ('"' :: text) = readBasic (text.length + 1) text := by
  rw [readText.eq_def]
  split
  next same => exact absurd ⟨_, (List.cons.inj same).2.symm⟩ single
  next same => cases same
  next same =>
    cases same
    rfl
  next same => cases same
  next others _ => exact (others text rfl).elim

theorem readText_literal (single : ¬ ['\'', '\''] <+: text) :
    readText ('\'' :: text) = readLiteral text := by
  rw [readText.eq_def]
  split
  next same => cases same
  next same => exact absurd ⟨_, (List.cons.inj same).2.symm⟩ single
  next same => cases same
  next same =>
    cases same
    rfl
  next others => exact (others text rfl).elim

/-- Behind the first quote of a string on one line there are no two more quotes. -/
theorem not_pair_append {quote : Char} (leavesInside : Leaves quote text)
    (leaves : Leaves quote rest) : ¬ [quote, quote] <+: text ++ quote :: rest := by
  rintro ⟨others, same⟩
  cases text with
  | nil =>
      cases rest with
      | nil => cases same
      | cons c rest =>
          injection same with _ same
          injection same with same _
          exact leaves c rfl same.symm
  | cons c text =>
      injection same with same _
      exact leavesInside c rfl same.symm

theorem SpellsBasic.leaves (spells : SpellsBasic content text) : Leaves '"' text := by
  cases spells with
  | done =>
      rintro c ⟨⟩
  | plain _ noQuote _ _ =>
      rintro c ⟨⟩
      exact noQuote
  | escaped =>
      rintro c ⟨⟩
      decide

theorem IsLiteral.leaves (literal : IsLiteral text) : Leaves '\'' text := by
  intro c membership
  exact (literal c (List.mem_of_mem_head? membership)).2

theorem readText_of_spells (spells : SpellsString content text)
    (basicEnds : Leaves '"' rest) (literalEnds : Leaves '\'' rest) :
    readText (text ++ rest) = some (content, rest) := by
  cases spells with
  | @basic content inside basic =>
      have single := not_pair_append basic.leaves basicEnds
      simp only [List.cons_append, List.append_assoc, List.nil_append]
      rw [readText_basic single]
      exact readBasic_of_spells basic (by simp only [List.length_append]; omega) rest
  | literal literal =>
      have single := not_pair_append literal.leaves literalEnds
      simp only [List.cons_append, List.append_assoc, List.nil_append]
      rw [readText_literal single]
      exact readLiteral_of_isLiteral literal rest
  | @basicLines opening content inside opens lines =>
      have dropped := dropNewLine_append opens (by decide : '"' ≠ '\n' ∧ '"' ≠ '\r')
        ('"' :: '"' :: rest)
      simp only [List.cons_append, List.append_assoc, List.nil_append]
      rw [readText, dropped]
      exact readBasicLines_of_spells lines
        (by simp only [List.length_cons, List.length_append]; omega) basicEnds
  | @literalLines opening content inside opens lines =>
      have dropped := dropNewLine_append opens (by decide : '\'' ≠ '\n' ∧ '\'' ≠ '\r')
        ('\'' :: '\'' :: rest)
      simp only [List.cons_append, List.append_assoc, List.nil_append]
      rw [readText, dropped]
      exact readLiteralLines_of_spells lines
        (by simp only [List.length_cons, List.length_append]; omega) literalEnds

end CertificateAudit.Toml
