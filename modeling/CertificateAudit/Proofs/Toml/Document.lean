import CertificateAudit.Proofs.Toml.Values

/-!
Documents are read line by line, as the grammar has them: reading a document comes to the same as
adding its statements one after the other (`read?_of_spells`).
-/

namespace CertificateAudit.Toml

variable {text rest behind blanks comment : List Char}

/-- What readers bear. -/
def Limits.borne : Limits where
  depth := depthLimit - 1
  largeFloats := false

namespace Draft

/-- The document after one more statement. -/
def add (draft : Draft) : Statement → Option Draft
  | .entry entry =>
      (draft.root.defineIn draft.header entry.path entry.key entry.value).map
        fun root => { draft with root }
  | .table path key => (draft.root.openTable path key).map fun root => ⟨root, path ++ [key]⟩
  | .element path key => (draft.root.openNext path key).map fun root => ⟨root, path ++ [key]⟩

end Draft

/-- The tables of a document, unless some of its statements are in the way of others. -/
def tables? (statements : List Statement) : Option Table :=
  (statements.foldlM Draft.add {}).map Draft.root

/-! Ends of lines. -/

/-- What is left of a text behind a line: the next line, or nothing at the end. -/
def EndsLine (behind rest : List Char) : Prop :=
  behind = [] ∧ rest = [] ∨ ∃ ending, IsNewLine ending ∧ behind = ending ++ rest

theorem EndsLine.head (ends : EndsLine behind rest) : ∀ c ∈ behind.head?, c = '\n' ∨ c = '\r' := by
  rcases ends with ⟨rfl, _⟩ | ⟨ending, rfl | rfl, rfl⟩
  · rintro c ⟨⟩
  · rintro c ⟨⟩
    exact .inl rfl
  · rintro c ⟨⟩
    exact .inr rfl

theorem EndsLine.skipSpace_eq (ends : EndsLine behind rest) : skipSpace behind = behind := by
  cases behind with
  | nil => rfl
  | cons c behind =>
      rcases ends.head c rfl with rfl | rfl
      · exact skipSpace_cons (by decide) _
      · exact skipSpace_cons (by decide) _

theorem skipComment_of_endsLine (plain : ∀ c ∈ comment, isPlain c = true)
    (ends : EndsLine behind rest) : skipComment (comment ++ behind) = behind := by
  rw [skipComment, List.dropWhile_append_of_pos plain]
  cases behind with
  | nil => rfl
  | cons c behind =>
      rcases ends.head c rfl with rfl | rfl
      · rfl
      · rfl

theorem EndsLine.rest_eq (ends : EndsLine behind rest) :
    (if behind.isEmpty then some [] else newLine? behind) = some rest := by
  rcases ends with ⟨rfl, rfl⟩ | ⟨ending, breaks, rfl⟩
  · rfl
  · have read := newLine?_append breaks rest
    obtain ⟨first, others, rfl, _⟩ := exists_newLine_cons breaks
    rw [if_neg (by simp), read]

theorem endLine?_append (blank : IsSpaces blanks) (isComment : IsComment comment)
    (ends : EndsLine behind rest) : endLine? (blanks ++ (comment ++ behind)) = some rest := by
  rw [endLine?, skipSpace_append blank]
  cases isComment with
  | absent =>
      have noComment : ∀ others, behind ≠ '#' :: others := by
        rintro others rfl
        rcases ends.head '#' rfl with impossible | impossible <;> cases impossible
      rw [List.nil_append, ends.skipSpace_eq]
      split
      next => exact absurd rfl (noComment _)
      next => exact ends.rest_eq
  | present plain =>
      rw [List.cons_append, skipSpace_cons (by decide)]
      simp only [skipComment_of_endsLine plain ends]
      exact ends.rest_eq

theorem ends_of_line (blank : IsSpaces blanks) (isComment : IsComment comment)
    (ends : EndsLine behind rest) : Ends (blanks ++ (comment ++ behind)) := by
  refine ends_of_isSpaces blank ?_
  cases isComment with
  | absent =>
      intro c membership
      rw [List.nil_append, ends.skipSpace_eq] at membership
      rcases ends.head c membership with rfl | rfl <;> decide
  | present => exact Ends.cons (by decide) _

/-! Lines. -/

theorem readLines_nil (rounds : Nat) (draft : Draft) :
    Draft.readLines rounds draft [] = some draft := by
  cases rounds <;> rfl

theorem readLines_blank (blank : IsSpaces blanks) (isComment : IsComment comment)
    (ends : EndsLine behind rest) (rounds : Nat) (draft : Draft) :
    Draft.readLines (rounds + 1) draft (blanks ++ (comment ++ behind)) =
      Draft.readLines rounds draft rest := by
  rw [Draft.readLines, skipSpace_append blank]
  cases isComment with
  | absent =>
      rw [List.nil_append, ends.skipSpace_eq]
      rcases ends with ⟨rfl, rfl⟩ | ⟨ending, rfl | rfl, rfl⟩
      · exact (readLines_nil rounds draft).symm
      · rfl
      · rfl
  | @present comment plain =>
      have ended := endLine?_append (List.forall_mem_nil _ : IsSpaces []) (.present plain) ends
      simp only [List.nil_append, List.cons_append] at ended ⊢
      rw [skipSpace_cons (by decide)]
      simp only [ended, Option.bind_eq_bind, Option.bind_some]

section

variable {after : List Char} {path : List String} {key : String} {name : List Char}

theorem readHeader_table (named : SpellsKey .borne path key name) (blank : IsSpaces after)
    (isComment : IsComment comment) (ends : EndsLine behind rest) (draft : Draft) :
    draft.readHeader (name ++ ']' :: (after ++ (comment ++ behind))) =
      (draft.add (.table path key)).map fun draft => (draft, rest) := by
  have keyRead := readKey_of_spells named (by decide) (.inr rfl) (after ++ (comment ++ behind))
  have ended := endLine?_append blank isComment ends
  obtain ⟨first, others, _, starts, skips⟩ := named.exists_trimmed
  have skipped := skips (']' :: (after ++ (comment ++ behind)))
  rw [Draft.readHeader.eq_def]
  split
  next same =>
    rw [same, skipSpace_cons (by decide)] at skipped
    exact absurd (List.cons.inj skipped).1.symm (starts.ne (by decide))
  next =>
    simp only [keyRead, expect?_cons, ended, Option.bind_eq_bind, Option.bind_some, Draft.add]
    cases draft.root.openTable path key <;> rfl

theorem readHeader_element (named : SpellsKey .borne path key name) (blank : IsSpaces after)
    (isComment : IsComment comment) (ends : EndsLine behind rest) (draft : Draft) :
    draft.readHeader ('[' :: (name ++ ']' :: ']' :: (after ++ (comment ++ behind)))) =
      (draft.add (.element path key)).map fun draft => (draft, rest) := by
  have keyRead :=
    readKey_of_spells named (by decide) (.inr rfl) (']' :: (after ++ (comment ++ behind)))
  have ended := endLine?_append blank isComment ends
  simp only [Draft.readHeader, keyRead, expect?_cons, ended, Option.bind_eq_bind,
    Option.bind_some, Draft.add]
  cases draft.root.openNext path key <;> rfl

theorem readEntry_line {entry : Entry}
    (spelled : SpellsEntry .borne (Spells .borne Limits.borne.depth) entry text)
    (blank : IsSpaces after) (isComment : IsComment comment) (ends : EndsLine behind rest)
    (draft : Draft) :
    draft.readEntry (text ++ (after ++ (comment ++ behind))) =
      (draft.add (.entry entry)).map fun draft => (draft, rest) := by
  have ended := endLine?_append blank isComment ends
  have reads : Reads (Spells .borne Limits.borne.depth) (readValue depthLimit) :=
    reads_readValue rfl (by decide) _
  obtain ⟨behindKey, keyRead, valueRead⟩ :=
    readEntry_of_spells reads (by decide) spelled (ends_of_line blank isComment ends)
  simp only [Draft.readEntry, keyRead, expect?_cons, valueRead, ended, Option.bind_eq_bind,
    Option.bind_some, Draft.add]
  cases draft.root.defineIn draft.header entry.path entry.key entry.value <;> rfl

end

theorem readLines_statement {before after : List Char} {statement : Statement}
    (front : IsSpaces before) (spelled : SpellsStatement .borne statement text)
    (blank : IsSpaces after) (isComment : IsComment comment) (ends : EndsLine behind rest)
    (rounds : Nat) (draft : Draft) :
    Draft.readLines (rounds + 1) draft (before ++ (text ++ (after ++ (comment ++ behind)))) =
      (draft.add statement).bind fun draft => Draft.readLines rounds draft rest := by
  rw [Draft.readLines, skipSpace_append front]
  cases spelled with
  | @entry entry text spelled =>
      obtain ⟨first, others, trimmed, starts, skips⟩ := spelled.exists_trimmed
      have read := readEntry_line trimmed blank isComment ends draft
      have noBreak := newLine?_cons (starts.ne (d := '\n') (by decide))
        (starts.ne (d := '\r') (by decide)) (others ++ (after ++ (comment ++ behind)))
      rw [List.cons_append] at read
      rw [skips]
      split
      next same => cases same
      next same => exact absurd (List.cons.inj same).1 (starts.ne (by decide))
      next same => exact absurd (List.cons.inj same).1 (starts.ne (by decide))
      next =>
        rw [noBreak]
        simp only [read, Option.bind_eq_bind, Option.bind_map]
        rfl
  | @table path key name named =>
      have read := readHeader_table named blank isComment ends draft
      simp only [List.cons_append, List.append_assoc, List.nil_append]
      rw [skipSpace_cons (by decide)]
      simp only [read, Option.bind_eq_bind, Option.bind_map]
      rfl
  | @element path key name named =>
      have read := readHeader_element named blank isComment ends draft
      simp only [List.cons_append, List.append_assoc, List.nil_append]
      rw [skipSpace_cons (by decide)]
      simp only [read, Option.bind_eq_bind, Option.bind_map]
      rfl

theorem readLines_line {statements : List Statement} {line : List Char}
    (spelled : SpellsLine .borne statements line) (ends : EndsLine behind rest) (rounds : Nat)
    (draft : Draft) :
    Draft.readLines (rounds + 1) draft (line ++ behind) =
      (statements.foldlM Draft.add draft).bind fun draft => Draft.readLines rounds draft rest := by
  cases spelled with
  | blank blank isComment =>
      rw [List.append_assoc, readLines_blank blank isComment ends]
      rfl
  | statement front spelled blank isComment =>
      simp only [List.append_assoc]
      rw [readLines_statement front spelled blank isComment ends, List.foldlM_cons]
      cases draft.add _ <;> rfl

theorem readLines_of_spells {statements : List Statement}
    (spelled : SpellsLines .borne statements text) {rounds : Nat} (enough : text.length < rounds)
    (draft : Draft) :
    Draft.readLines rounds draft text = statements.foldlM Draft.add draft := by
  induction spelled generalizing rounds draft with
  | @last statements line spelled =>
      obtain ⟨rounds, rfl⟩ : ∃ fewer, rounds = fewer + 1 := ⟨rounds - 1, by omega⟩
      have read := readLines_line spelled (.inl ⟨rfl, rfl⟩) rounds draft
      rw [List.append_nil] at read
      rw [read]
      simp only [readLines_nil]
      cases statements.foldlM Draft.add draft <;> rfl
  | @next statements line ending others rest spelled breaks _ inductionHypothesis =>
      simp only [List.length_append] at enough
      have long : 1 ≤ ending.length := by
        rcases breaks with rfl | rfl <;> decide
      obtain ⟨rounds, rfl⟩ : ∃ fewer, rounds = fewer + 1 := ⟨rounds - 1, by omega⟩
      rw [readLines_line spelled (.inr ⟨ending, breaks, rfl⟩), List.foldlM_append]
      refine congrArg _ (funext fun draft => ?_)
      exact inductionHypothesis (by omega) draft

/-- Only in front of a document is there a byte order mark. -/
theorem SpellsLine.head {limits : Limits} {statements : List Statement} {line : List Char}
    (spelled : SpellsLine limits statements line) : ∀ c ∈ line.head?, c ≠ '\uFEFF' := by
  have front {blanks text : List Char} (blank : IsSpaces blanks)
      (other : ∀ c ∈ text.head?, c ≠ '\uFEFF') : ∀ c ∈ (blanks ++ text).head?, c ≠ '\uFEFF' := by
    cases blanks with
    | nil => exact other
    | cons first blanks =>
        have space := blank first List.mem_cons_self
        rintro c ⟨⟩ rfl
        exact absurd space (by decide)
  cases spelled with
  | blank blank isComment =>
      refine front blank ?_
      cases isComment with
      | absent => rintro c ⟨⟩
      | present =>
          rintro c ⟨⟩
          decide
  | @statement before statement text after comment blank spelled =>
      refine front blank ?_
      cases spelled with
      | entry spelled =>
          obtain ⟨first, others, _, starts, skips⟩ := spelled.exists_trimmed
          rintro c membership rfl
          obtain ⟨behind, same⟩ := List.head?_eq_some_iff.mp membership
          have skipped := skips (after ++ comment)
          rw [same, skipSpace_cons (by decide)] at skipped
          exact starts.ne (by decide) (List.cons.inj skipped).1.symm
      | table =>
          rintro c ⟨⟩
          decide
      | element =>
          rintro c ⟨⟩
          decide

theorem SpellsLines.head {limits : Limits} {statements : List Statement}
    (spelled : SpellsLines limits statements text) : ∀ c ∈ text.head?, c ≠ '\uFEFF' := by
  cases spelled with
  | last spelled => exact spelled.head
  | @next statements line ending others rest spelled breaks =>
      cases line with
      | nil => rcases breaks with rfl | rfl <;> rintro c ⟨⟩ <;> decide
      | cons first line => exact spelled.head

/-- Reading a document comes to the same as adding its statements one after the other. -/
theorem read?_of_spells {statements : List Statement} {text : String}
    (spelled : SpellsDocument .borne statements text.toList) :
    read? text = tables? statements := by
  have read {characters : List Char} (spelled : SpellsLines .borne statements characters) :
      (Draft.readLines (characters.length + 1) {} characters).map Draft.root =
        tables? statements := by
    rw [readLines_of_spells spelled (Nat.lt_succ_self _)]
    rfl
  unfold read?
  generalize text.toList = characters at spelled
  cases spelled with
  | plain spelled =>
      split
      next => exact absurd rfl (spelled.head _ rfl)
      next => exact read spelled
  | marked spelled => exact read spelled

end CertificateAudit.Toml
