import CertificateAudit.Proofs.Toml.Numbers

/-!
Keys and values are read as the grammar has them: as long as values are nested less deep and keys
have fewer parts than the reader bears, every spelling of a value is read as that value
(`reads_readValue`).
-/

namespace CertificateAudit.Toml

open CertificateAudit.Text

variable {limits : Limits} {text rest : List Char}

/-! Keys. -/

theorem readKeyPart_of_spells {part : String} (spells : SpellsPart part text)
    (ends : ∀ c ∈ rest.head?, isBareKey c = false) :
    readKeyPart (text ++ rest) = some (part, rest) := by
  cases spells with
  | bare nonempty all =>
      have stops : rest.takeWhile isBareKey = [] := by
        cases rest with
        | nil => rfl
        | cons c rest => exact List.takeWhile_cons_of_neg (by simp [ends c rfl])
      have taken : (text ++ rest).takeWhile isBareKey = text := by
        rw [List.takeWhile_append_of_pos all, stops, List.append_nil]
      obtain ⟨first, others, rfl⟩ := List.exists_cons_of_ne_nil nonempty
      have bare := all first List.mem_cons_self
      unfold readKeyPart
      split
      next same =>
        rw [(List.cons.inj same).1] at bare
        cases bare
      next same =>
        rw [(List.cons.inj same).1] at bare
        cases bare
      next =>
        simp only [taken]
        rw [List.drop_left]
        rfl
  | @basic content inside basic =>
      simp only [List.cons_append, List.append_assoc, List.nil_append]
      rw [readKeyPart, readBasic_of_spells basic
        (by simp only [List.length_cons, List.length_append]; omega) rest]
      rfl
  | literal literal =>
      simp only [List.cons_append, List.append_assoc, List.nil_append]
      rw [readKeyPart, readLiteral_of_isLiteral literal rest]
      rfl

theorem head_append_of_isSpaces {blanks : List Char} (blank : IsSpaces blanks) {c : Char}
    (noBare : isBareKey c = false) (rest : List Char) :
    ∀ d ∈ (blanks ++ c :: rest).head?, isBareKey d = false := by
  cases blanks with
  | nil =>
      rintro d ⟨⟩
      exact noBare
  | cons first blanks =>
      have space := blank first List.mem_cons_self
      simp only [isSpace, Bool.or_eq_true, beq_iff_eq] at space
      rcases space with rfl | rfl
      · rintro d ⟨⟩
        decide
      · rintro d ⟨⟩
        decide

/-- The characters that a part of a key starts with. -/
def StartsPart (c : Char) : Prop :=
  isBareKey c = true ∨ c = '"' ∨ c = '\''

theorem SpellsPart.exists_cons {part : String} (spells : SpellsPart part text) :
    ∃ first others, text = first :: others ∧ StartsPart first := by
  cases spells with
  | bare nonempty all =>
      obtain ⟨first, others, rfl⟩ := List.exists_cons_of_ne_nil nonempty
      exact ⟨first, others, rfl, .inl (all first List.mem_cons_self)⟩
  | basic => exact ⟨_, _, rfl, .inr (.inl rfl)⟩
  | literal => exact ⟨_, _, rfl, .inr (.inr rfl)⟩

theorem StartsPart.visible {c : Char} (starts : StartsPart c) : isSpace c = false := by
  rcases starts with bare | rfl | rfl
  · cases space : isSpace c with
    | false => rfl
    | true =>
        simp only [isSpace, Bool.or_eq_true, beq_iff_eq] at space
        rcases space with rfl | rfl <;> cases bare
  · rfl
  · rfl

/-- Behind a key stands the sign or the bracket that ends it. -/
theorem readKeyParts_of_spells {parts : List String} (spells : SpellsParts parts text) {c : Char}
    (closes : c = '=' ∨ c = ']') {rounds : Nat} (enough : parts.length ≤ rounds)
    (rest : List Char) :
    readKeyParts rounds (text ++ c :: rest) = some (parts, c :: rest) := by
  have closed : isBareKey c = false ∧ isSpace c = false ∧ c ≠ '.' := by
    rcases closes with rfl | rfl <;> decide
  obtain ⟨noBare, noSpace, noPoint⟩ := closed
  induction spells generalizing rounds with
  | @last before part text after blank spelled behind =>
      rw [List.length_singleton] at enough
      obtain ⟨rounds, rfl⟩ := Nat.exists_eq_add_of_le' enough
      have read := readKeyPart_of_spells spelled (head_append_of_isSpaces behind noBare rest)
      obtain ⟨first, others, rfl, starts⟩ := spelled.exists_cons
      have front : skipSpace (before ++ (first :: others ++ (after ++ c :: rest))) =
          first :: others ++ (after ++ c :: rest) := by
        rw [skipSpace_append blank, List.cons_append, skipSpace_cons starts.visible]
      simp only [List.append_assoc, List.cons_append] at front read ⊢
      simp only [readKeyParts, front, read, Option.bind_eq_bind, Option.bind_some,
        skipSpace_append behind, skipSpace_cons noSpace]
      split
      next same => exact absurd (List.cons.inj same).1 noPoint
      next => rfl
  | @next before part text after parts others blank spelled behind _ inductionHypothesis =>
      rw [List.length_cons] at enough
      obtain ⟨rounds, rfl⟩ : ∃ fewer, rounds = fewer + 1 := ⟨rounds - 1, by omega⟩
      have later := inductionHypothesis (Nat.le_of_succ_le_succ enough)
      have read := readKeyPart_of_spells spelled
        (head_append_of_isSpaces behind (by decide : isBareKey '.' = false)
          (others ++ c :: rest))
      obtain ⟨first, more, rfl, starts⟩ := spelled.exists_cons
      have front :
          skipSpace (before ++ (first :: more ++ (after ++ '.' :: (others ++ c :: rest)))) =
            first :: more ++ (after ++ '.' :: (others ++ c :: rest)) := by
        rw [skipSpace_append blank, List.cons_append, skipSpace_cons starts.visible]
      have point : skipSpace (after ++ '.' :: (others ++ c :: rest)) =
          '.' :: (others ++ c :: rest) := by
        rw [skipSpace_append behind, skipSpace_cons (by decide)]
      simp only [List.append_assoc, List.cons_append] at front read ⊢
      simp only [readKeyParts, front, read, point, later, Option.bind_eq_bind, Option.bind_some]
      rfl

theorem SpellsParts.length_le {parts : List String} (spells : SpellsParts parts text) :
    parts.length ≤ text.length := by
  induction spells with
  | last _ spelled _ =>
      obtain ⟨first, others, rfl, _⟩ := spelled.exists_cons
      simp only [List.length_append, List.length_cons, List.length_nil]
      omega
  | next =>
      simp only [List.length_append, List.length_cons]
      omega

theorem readKey_of_spells {path : List String} {key : String}
    (spells : SpellsKey limits path key text) (bounded : limits.depth < depthLimit) {c : Char}
    (closes : c = '=' ∨ c = ']') (rest : List Char) :
    readKey (text ++ c :: rest) = some ((path, key), c :: rest) := by
  have enough : (path ++ [key]).length ≤ (text ++ c :: rest).length := by
    have parts := spells.parts.length_le
    simp only [List.length_append, List.length_cons] at parts ⊢
    omega
  have short : (path ++ [key]).length < depthLimit := by
    have shorter := spells.short
    rw [List.length_append, List.length_singleton]
    omega
  simp only [readKey, readKeyParts_of_spells spells.parts closes enough, Option.bind_eq_bind,
    Option.bind_some, if_pos short, List.getLast?_concat, List.dropLast_concat]
  rfl

/-- Without the blanks at its front a key is still a spelling of the same parts. -/
theorem SpellsKey.exists_trimmed {path : List String} {key : String}
    (spells : SpellsKey limits path key text) :
    ∃ first others, SpellsKey limits path key (first :: others) ∧ StartsPart first ∧
      ∀ rest, skipSpace (text ++ rest) = first :: (others ++ rest) := by
  obtain ⟨parts, short⟩ := spells
  generalize same : path ++ [key] = all at parts
  cases parts with
  | last blank spelled behind =>
      obtain ⟨first, others, rfl, starts⟩ := spelled.exists_cons
      have trimmed := SpellsParts.last (List.forall_mem_nil _ : IsSpaces []) spelled behind
      refine ⟨first, _, ⟨same ▸ trimmed, short⟩, starts, fun rest => ?_⟩
      rw [List.append_assoc, skipSpace_append blank]
      exact skipSpace_cons starts.visible _
  | next blank spelled behind others =>
      obtain ⟨first, more, rfl, starts⟩ := spelled.exists_cons
      have trimmed := SpellsParts.next (List.forall_mem_nil _ : IsSpaces []) spelled behind others
      refine ⟨first, _, ⟨same ▸ trimmed, short⟩, starts, fun rest => ?_⟩
      rw [List.append_assoc, skipSpace_append blank]
      exact skipSpace_cons starts.visible _

/-! Gaps between the values of a list. -/

/-- The text starts neither with a blank nor with a comment nor with a line break. -/
def StartsSolid (text : List Char) : Prop :=
  ∀ c ∈ text.head?, isSpace c = false ∧ c ≠ '#' ∧ c ≠ '\n' ∧ c ≠ '\r'

theorem skipGap_space {c : Char} (space : isSpace c = true) (rounds : Nat) (text : List Char) :
    skipGap (rounds + 1) (c :: text) = skipGap (rounds + 1) text := by
  have dropped : skipSpace (c :: text) = skipSpace text := List.dropWhile_cons_of_pos space
  rw [skipGap, skipGap, dropped]

theorem skipGap_newLine {ending : List Char} (breaks : IsNewLine ending) (rounds : Nat)
    (text : List Char) : skipGap (rounds + 1) (ending ++ text) = skipGap rounds text := by
  rcases breaks with rfl | rfl <;> rfl

theorem skipComment_append {comment ending : List Char}
    (plain : ∀ c ∈ comment, isPlain c = true) (breaks : IsNewLine ending) (text : List Char) :
    skipComment (comment ++ (ending ++ text)) = ending ++ text := by
  rw [skipComment, List.dropWhile_append_of_pos plain]
  rcases breaks with rfl | rfl <;> rfl

theorem skipGap_of_isGap {gap : List Char} (isGap : IsGap gap) (solid : StartsSolid rest)
    {rounds : Nat} (enough : gap.length ≤ rounds) : skipGap rounds (gap ++ rest) = some rest := by
  induction isGap generalizing rounds with
  | done =>
      cases rounds with
      | zero => rfl
      | succ rounds =>
          cases rest with
          | nil => rfl
          | cons c rest =>
              obtain ⟨noSpace, noComment, noFeed, noReturn⟩ := solid c rfl
              rw [List.nil_append, skipGap, skipSpace_cons noSpace]
              split
              next same => exact absurd (List.cons.inj same).1 noComment
              next => rw [newLine?_cons noFeed noReturn]
  | space blank _ inductionHypothesis =>
      rw [List.length_cons] at enough
      obtain ⟨rounds, rfl⟩ := Nat.exists_eq_add_of_le' (Nat.le_of_add_left_le enough)
      rw [List.cons_append, skipGap_space blank]
      exact inductionHypothesis (by omega)
  | newLine breaks _ inductionHypothesis =>
      obtain ⟨first, others, rfl, _⟩ := exists_newLine_cons breaks
      simp only [List.length_append, List.length_cons] at enough
      obtain ⟨rounds, rfl⟩ : ∃ fewer, rounds = fewer + 1 := ⟨rounds - 1, by omega⟩
      rw [List.append_assoc, skipGap_newLine breaks]
      exact inductionHypothesis (by omega)
  | @comment comment ending text plain breaks _ inductionHypothesis =>
      simp only [List.length_cons, List.length_append] at enough
      obtain ⟨rounds, rfl⟩ : ∃ fewer, rounds = fewer + 1 := ⟨rounds - 1, by omega⟩
      have mark : skipSpace ('#' :: (comment ++ (ending ++ (text ++ rest)))) =
          '#' :: (comment ++ (ending ++ (text ++ rest))) := skipSpace_cons (by decide) _
      simp only [List.cons_append, List.append_assoc]
      simp only [skipGap, mark, skipComment_append plain breaks, newLine?_append breaks,
        Option.bind_eq_bind, Option.bind_some]
      exact inductionHypothesis (by omega)

theorem ends_of_isGap {gap : List Char} (isGap : IsGap gap) (ends : Ends rest) :
    Ends (gap ++ rest) := by
  induction isGap with
  | done => exact ends
  | space blank _ inductionHypothesis =>
      rw [Ends, List.cons_append, skipSpace, List.dropWhile_cons_of_pos blank]
      exact inductionHypothesis
  | newLine breaks =>
      rcases breaks with rfl | rfl <;> rintro c ⟨⟩ <;> decide
  | comment =>
      rintro c ⟨⟩
      decide

theorem ends_of_isSpaces {blanks : List Char} (blank : IsSpaces blanks) (ends : Ends rest) :
    Ends (blanks ++ rest) := by
  rw [Ends, skipSpace_append blank]
  exact ends

theorem Ends.cons {c : Char} (closes : c ∈ [',', ']', '\x7d', '#', '\n', '\r'])
    (rest : List Char) : Ends (c :: rest) := by
  have noSpace : isSpace c = false := by
    simp only [List.mem_cons, List.not_mem_nil, or_false] at closes
    rcases closes with rfl | rfl | rfl | rfl | rfl | rfl <;> rfl
  rw [Ends, skipSpace_cons noSpace]
  rintro d ⟨⟩
  exact closes

/-! Values. -/

/-- The text starts like a value of one token. -/
def StartsScalar (text : List Char) : Prop :=
  StartsNumber text ∨ ∃ first others, text = first :: others ∧ first ∈ ['"', '\'', 't', 'f']

theorem SpellsScalar.startsScalar {value : Value} (spells : SpellsScalar limits value text) :
    StartsScalar text := by
  cases spells with
  | text string => cases string <;> exact .inr ⟨_, _, rfl, by decide⟩
  | integer integer => exact .inl integer.startsNumber
  | float float => exact .inl float.startsNumber
  | yes => exact .inr ⟨_, _, rfl, by decide⟩
  | no => exact .inr ⟨_, _, rfl, by decide⟩
  | time isTime => exact .inl isTime.startsNumber

/-- A character with which no token starts. -/
theorem StartsScalar.ne {first : Char} {others : List Char}
    (starts : StartsScalar (first :: others)) {c : Char} (noDigit : Decimal.isDigit c = false)
    (unknown : c ∉ ['+', '-', 'i', 'n', '"', '\'', 't', 'f']) : first ≠ c := by
  rintro rfl
  rcases starts with ⟨_, _, ⟨⟩, digit | known⟩ | ⟨_, _, ⟨⟩, known⟩
  · cases digit.symm.trans noDigit
  · exact unknown (List.mem_append_left ['"', '\'', 't', 'f'] known)
  · exact unknown (List.mem_append_right ['+', '-', 'i', 'n'] known)

/-- The text starts like a value: neither with something to pass over nor with what would end a list
or a table. -/
def StartsValue (text : List Char) : Prop :=
  ∃ first others, text = first :: others ∧ isSpace first = false ∧
    first ∉ ['#', '\n', '\r', ']', '\x7d']

theorem StartsScalar.startsValue (starts : StartsScalar text) : StartsValue text := by
  have nonempty : ∃ first others, text = first :: others := by
    rcases starts with ⟨first, others, rfl, _⟩ | ⟨first, others, rfl, _⟩
    · exact ⟨first, others, rfl⟩
    · exact ⟨first, others, rfl⟩
  obtain ⟨first, others, rfl⟩ := nonempty
  refine ⟨first, others, rfl, ?_, ?_⟩
  · rw [isSpace, beq_false_of_ne (starts.ne (by decide) (by decide)),
      beq_false_of_ne (starts.ne (by decide) (by decide))]
    rfl
  · intro membership
    simp only [List.mem_cons, List.not_mem_nil, or_false] at membership
    rcases membership with same | same | same | same | same <;>
      exact starts.ne (by decide) (by decide) same

theorem Spells.startsValue {depth : Nat} {value : Value} (spells : Spells limits depth value text) :
    StartsValue text := by
  have nested {spells : Value → List Char → Prop}
      (nests : SpellsNested limits spells value text) : StartsValue text := by
    cases nests <;> exact ⟨_, _, rfl, by decide, by decide⟩
  cases depth with
  | zero => exact (SpellsScalar.startsScalar spells).startsValue
  | succ depth => exact spells.elim (fun scalar => scalar.startsScalar.startsValue) nested

theorem StartsValue.skipSpace_append (starts : StartsValue text) {blanks : List Char}
    (blank : IsSpaces blanks) (rest : List Char) :
    skipSpace (blanks ++ (text ++ rest)) = text ++ rest := by
  obtain ⟨first, others, rfl, visible, _⟩ := starts
  rw [Toml.skipSpace_append blank, List.cons_append, skipSpace_cons visible]

theorem StartsValue.solid (starts : StartsValue text) (rest : List Char) :
    StartsSolid (text ++ rest) := by
  obtain ⟨first, others, rfl, visible, unknown⟩ := starts
  simp only [List.mem_cons, List.not_mem_nil, or_false, not_or] at unknown
  obtain ⟨noComment, noFeed, noReturn, _⟩ := unknown
  rintro c ⟨⟩
  exact ⟨visible, noComment, noFeed, noReturn⟩

/-! Lists and tables between braces. -/

section

variable {spells : Value → List Char → Prop} {read : List Char → Option (Value × List Char)}
  {bound : Nat}

/-- The reader takes what is spelled off the front of a text, whatever ends a value behind it. -/
structure Reads (spells : Value → List Char → Prop)
    (read : List Char → Option (Value × List Char)) : Prop where
  starts : ∀ {value text}, spells value text → StartsValue text
  takes : ∀ {value text}, spells value text → ∀ {rest}, Ends rest →
    read (text ++ rest) = some (value, rest)

theorem skipGap_whole {gap : List Char} (isGap : IsGap gap) (solid : StartsSolid rest) :
    skipGap (gap ++ rest).length (gap ++ rest) = some rest :=
  skipGap_of_isGap isGap solid (by rw [List.length_append]; exact Nat.le_add_right _ _)

theorem StartsSolid.cons {c : Char}
    (solid : isSpace c = false ∧ c ≠ '#' ∧ c ≠ '\n' ∧ c ≠ '\r') (rest : List Char) :
    StartsSolid (c :: rest) := by
  rintro d ⟨⟩
  exact solid

theorem readItems_of_spells (reads : Reads spells read) {values : List Value} {inside : List Char}
    (listed : SpellsItems spells values inside) {rounds : Nat} (enough : values.length < rounds)
    (rest : List Char) :
    readItems read rounds (inside ++ ']' :: rest) = some (values, rest) := by
  have bracket : StartsSolid (']' :: rest) := StartsSolid.cons (by decide) rest
  have closing : Ends (']' :: rest) := Ends.cons (by decide) rest
  induction listed generalizing rounds with
  | none isGap =>
      obtain ⟨rounds, rfl⟩ := Nat.exists_eq_add_of_lt enough
      simp only [List.length_nil, Nat.zero_add, readItems, skipGap_whole isGap bracket,
        Option.bind_eq_bind, Option.bind_some]
      rfl
  | @last before value text after blank spelled behind =>
      rw [List.length_singleton] at enough
      obtain ⟨rounds, rfl⟩ : ∃ fewer, rounds = fewer + 1 := ⟨rounds - 1, by omega⟩
      have starts := reads.starts spelled
      have front := skipGap_whole blank (starts.solid (after ++ ']' :: rest))
      have taken := reads.takes spelled (ends_of_isGap behind closing)
      have closed := skipGap_whole behind bracket
      simp only [List.append_assoc]
      simp only [readItems, front, Option.bind_eq_bind, Option.bind_some]
      split
      next same =>
        obtain ⟨first, others, rfl, _, unknown⟩ := starts
        rw [(List.cons.inj same).1] at unknown
        exact absurd (by decide) unknown
      next =>
        simp only [taken, closed, Option.bind_some]
        rfl
  | @next before value text after values others blank spelled behind _ inductionHypothesis =>
      rw [List.length_cons] at enough
      obtain ⟨rounds, rfl⟩ : ∃ fewer, rounds = fewer + 1 := ⟨rounds - 1, by omega⟩
      have starts := reads.starts spelled
      have front := skipGap_whole blank (starts.solid (after ++ ',' :: (others ++ ']' :: rest)))
      have comma : Ends (',' :: (others ++ ']' :: rest)) := Ends.cons (by decide) _
      have taken := reads.takes spelled (ends_of_isGap behind comma)
      have parted := skipGap_whole behind
        (StartsSolid.cons (by decide) (others ++ ']' :: rest) : StartsSolid (',' :: _))
      have later := inductionHypothesis (by omega : _ < rounds)
      simp only [List.append_assoc, List.cons_append]
      simp only [readItems, front, Option.bind_eq_bind, Option.bind_some]
      split
      next same =>
        obtain ⟨first, others, rfl, _, unknown⟩ := starts
        rw [(List.cons.inj same).1] at unknown
        exact absurd (by decide) unknown
      next =>
        simp only [taken, parted, later, Option.bind_some]
        rfl

theorem SpellsItems.length_le (reads : Reads spells read) {values : List Value}
    (listed : SpellsItems spells values text) : values.length ≤ text.length := by
  induction listed with
  | none => exact Nat.zero_le _
  | last _ spelled =>
      obtain ⟨first, others, rfl, _⟩ := reads.starts spelled
      simp only [List.length_append, List.length_cons, List.length_nil]
      omega
  | next =>
      simp only [List.length_append, List.length_cons]
      omega

/-- An entry is read up to its value: the key, the sign and the value. -/
theorem readEntry_of_spells (reads : Reads spells read) (bounded : limits.depth < depthLimit)
    {entry : Entry} (spelled : SpellsEntry limits spells entry text) (ends : Ends rest) :
    ∃ behind, readKey (text ++ rest) = some ((entry.path, entry.key), '=' :: behind) ∧
      read (skipSpace behind) = some (entry.value, rest) := by
  cases spelled with
  | @intro path key name before value text named blank spelled =>
      refine ⟨before ++ (text ++ rest), ?_, ?_⟩
      · simp only [List.append_assoc, List.cons_append]
        exact readKey_of_spells named bounded (.inl rfl) _
      · rw [(reads.starts spelled).skipSpace_append blank]
        exact reads.takes spelled ends

theorem readInlineEntries_of_spells (reads : Reads spells read)
    (bounded : limits.depth < depthLimit) {entries : List Entry} {inside : List Char}
    (listed : SpellsEntries limits spells entries inside) {rounds : Nat}
    (enough : entries.length ≤ rounds) {start table : Table}
    (made : entries.foldlM
      (fun table entry => table.define entry.path entry.key entry.value) start = some table)
    (rest : List Char) :
    readInlineEntries read rounds start (inside ++ '\x7d' :: rest) = some (table, rest) := by
  have closing : Ends ('\x7d' :: rest) := Ends.cons (by decide) rest
  induction listed generalizing rounds start with
  | @last entry text after spelled behind =>
      rw [List.length_singleton] at enough
      obtain ⟨rounds, rfl⟩ := Nat.exists_eq_add_of_le' enough
      obtain ⟨behindKey, key, value⟩ :=
        readEntry_of_spells reads bounded spelled (ends_of_isSpaces behind closing)
      have closed : skipSpace (after ++ '\x7d' :: rest) = '\x7d' :: rest := by
        rw [skipSpace_append behind, skipSpace_cons (by decide)]
      have defined : start.define entry.path entry.key entry.value = some table := by
        simpa using made
      rw [List.append_assoc]
      simp only [readInlineEntries, key, expect?_cons, value, defined, closed,
        Option.bind_eq_bind, Option.bind_some]
      rfl
  | @next entry text after entries others spelled behind _ inductionHypothesis =>
      rw [List.length_cons] at enough
      obtain ⟨rounds, rfl⟩ : ∃ fewer, rounds = fewer + 1 := ⟨rounds - 1, by omega⟩
      have comma : Ends (',' :: (others ++ '\x7d' :: rest)) := Ends.cons (by decide) _
      obtain ⟨behindKey, key, value⟩ :=
        readEntry_of_spells reads bounded spelled (ends_of_isSpaces behind comma)
      have parted : skipSpace (after ++ ',' :: (others ++ '\x7d' :: rest)) =
          ',' :: (others ++ '\x7d' :: rest) := by
        rw [skipSpace_append behind, skipSpace_cons (by decide)]
      rw [List.foldlM_cons, Option.bind_eq_bind, Option.bind_eq_some_iff] at made
      obtain ⟨middle, defined, made⟩ := made
      simp only [List.append_assoc, List.cons_append]
      simp only [readInlineEntries, key, expect?_cons, value, defined, parted,
        Option.bind_eq_bind, Option.bind_some]
      exact inductionHypothesis (Nat.le_of_succ_le_succ enough) made

theorem SpellsEntries.length_le {entries : List Entry}
    (listed : SpellsEntries limits spells entries text) : entries.length ≤ text.length := by
  have long {entry : Entry} {text : List Char} (spelled : SpellsEntry limits spells entry text) :
      1 ≤ text.length := by
    cases spelled
    simp only [List.length_append, List.length_cons]
    omega
  induction listed with
  | last spelled =>
      have one := long spelled
      simp only [List.length_append, List.length_cons, List.length_nil]
      omega
  | next spelled =>
      have one := long spelled
      simp only [List.length_append, List.length_cons]
      omega

theorem SpellsEntry.exists_trimmed {entry : Entry}
    (spelled : SpellsEntry limits spells entry text) :
    ∃ first others, SpellsEntry limits spells entry (first :: others) ∧ StartsPart first ∧
      ∀ rest, skipSpace (text ++ rest) = first :: (others ++ rest) := by
  cases spelled with
  | @intro path key name before value text named blank spelled =>
      obtain ⟨first, others, trimmed, starts, skips⟩ := named.exists_trimmed
      refine ⟨first, others ++ '=' :: (before ++ text), .intro trimmed blank spelled, starts,
        fun rest => ?_⟩
      rw [List.append_assoc, skips, List.append_assoc]

/-- Whatever stands in front of its first key, a table between braces is not empty. -/
theorem SpellsEntries.exists_skipSpace {entries : List Entry}
    (listed : SpellsEntries limits spells entries text) (rest : List Char) :
    ∃ first others, StartsPart first ∧ skipSpace (text ++ rest) = first :: others := by
  cases listed with
  | last spelled =>
      obtain ⟨first, others, _, starts, skips⟩ := spelled.exists_trimmed
      rw [List.append_assoc, skips]
      exact ⟨first, _, starts, rfl⟩
  | next spelled =>
      obtain ⟨first, others, _, starts, skips⟩ := spelled.exists_trimmed
      rw [List.append_assoc, skips]
      exact ⟨first, _, starts, rfl⟩

theorem StartsPart.ne {c d : Char} (starts : StartsPart c)
    (other : isBareKey d = false ∧ d ≠ '"' ∧ d ≠ '\'') : c ≠ d := by
  rintro rfl
  obtain ⟨noBare, noQuote, noLiteral⟩ := other
  rcases starts with bare | same | same
  · cases bare.symm.trans noBare
  · exact noQuote same
  · exact noLiteral same

theorem readValue_nested (reads : Reads spells (readValue (bound + 1)))
    (bounded : limits.depth < depthLimit) {value : Value}
    (nested : SpellsNested limits spells value text) (rest : List Char) :
    readValue (bound + 2) (text ++ rest) = some (value, rest) := by
  cases nested with
  | @list items inside listed =>
      have enough : items.length < ('[' :: (inside ++ ']' :: rest)).length := by
        have fewer := listed.length_le reads
        simp only [List.length_cons, List.length_append]
        omega
      have read := readItems_of_spells reads listed enough rest
      simp only [List.cons_append, List.append_assoc, List.nil_append]
      rw [readValue, if_neg (Nat.succ_ne_zero bound), read]
      rfl
  | empty blank =>
      have closed : skipSpace (_ ++ '\x7d' :: rest) = '\x7d' :: rest :=
        (skipSpace_append blank _).trans (skipSpace_cons (by decide) rest)
      simp only [List.cons_append, List.append_assoc, List.nil_append]
      rw [readValue, if_neg (Nat.succ_ne_zero bound), closed]
      rfl
  | @table entries table inside listed made =>
      have enough : entries.length ≤ ('\x7b' :: (inside ++ '\x7d' :: rest)).length := by
        have fewer := listed.length_le
        simp only [List.length_cons, List.length_append]
        omega
      have read := readInlineEntries_of_spells reads bounded listed enough made rest
      obtain ⟨first, others, starts, front⟩ := listed.exists_skipSpace ('\x7d' :: rest)
      simp only [List.cons_append, List.append_assoc, List.nil_append]
      rw [readValue, if_neg (Nat.succ_ne_zero bound), front]
      split
      next same => exact absurd (List.cons.inj same).1 (starts.ne (by decide))
      next =>
        rw [read]
        rfl

end

/-- One level of brackets fewer is left for what is between them. -/
theorem reads_readValue (strict : limits.largeFloats = false) (bounded : limits.depth < depthLimit)
    (depth : Nat) : Reads (Spells limits depth) (readValue (depth + 1)) := by
  have scalar {bound : Nat} {value : Value} {text rest : List Char}
      (spelled : SpellsScalar limits value text) (ends : Ends rest) :
      readValue (bound + 1) (text ++ rest) = some (value, rest) := by
    have starts := spelled.startsScalar
    have read := readScalar_of_spells strict spelled ends
    obtain ⟨first, others, rfl, _⟩ := starts.startsValue
    rw [readValue.eq_def]
    dsimp only
    split
    next same => exact absurd (List.cons.inj same).1 (starts.ne (by decide) (by decide))
    next same => exact absurd (List.cons.inj same).1 (starts.ne (by decide) (by decide))
    next => exact read
  induction depth with
  | zero => exact ⟨Spells.startsValue, fun spelled rest ends => scalar spelled ends⟩
  | succ depth inductionHypothesis =>
      refine ⟨Spells.startsValue, fun spelled rest ends => ?_⟩
      rcases spelled with spelled | nested
      · exact scalar spelled ends
      · exact readValue_nested inductionHypothesis bounded nested _

end CertificateAudit.Toml
