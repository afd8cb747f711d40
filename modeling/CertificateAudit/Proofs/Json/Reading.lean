import CertificateAudit.Proofs.Json.Grammar
import CertificateAudit.Proofs.Text.Decimal
import Mathlib.Data.List.DropRight

/-!
Reading accepts whatever the grammar allows: a text that spells a value is read as that value
(`read?_of_spells`). Every reader is shown to take exactly what is spelled off the front of a
text, whatever follows, as long as a number cannot go on there (`Ends`).
-/

namespace CertificateAudit.Json

open CertificateAudit.Text

variable {text rest blanks digits : List Char}

theorem skipSpace_append (blank : IsSpaces blanks) (rest : List Char) :
    skipSpace (blanks ++ rest) = skipSpace rest :=
  List.dropWhile_append_of_pos blank

theorem skipSpace_cons {c : Char} (visible : isSpace c = false) (rest : List Char) :
    skipSpace (c :: rest) = c :: rest :=
  List.dropWhile_cons_of_neg (by simp [visible])

theorem skipSpace_skipSpace (text : List Char) : skipSpace (skipSpace text) = skipSpace text :=
  List.dropWhile_idempotent isSpace text

/-- Blanks that are passed over are none of the characters that count. -/
theorem countP_le_length_skipSpace (text : List Char) :
    text.countP (fun c => !isSpace c) ≤ (skipSpace text).length := by
  induction text with
  | nil => exact Nat.zero_le _
  | cons c text inductionHypothesis =>
      cases blank : isSpace c with
      | true =>
          rw [List.countP_cons_of_neg (by simp [blank]), skipSpace,
            List.dropWhile_cons_of_pos blank]
          exact inductionHypothesis
      | false =>
          rw [skipSpace_cons blank]
          exact List.countP_le_length

/-! Strings. -/

theorem readPieces_plain {c : Char} (printable : ' ' ≤ c) (noQuote : c ≠ '"')
    (noEscape : c ≠ '\\') (rest : List Char) :
    readPieces (c :: rest) =
      (readPieces rest).map fun (pieces, rest) => (.char c :: pieces, rest) := by
  rw [readPieces.eq_def]
  split
  next same => cases same
  next same => exact absurd (List.cons.inj same).1 noQuote
  next same => exact absurd (List.cons.inj same).1 noEscape
  next same => exact absurd (List.cons.inj same).1 noEscape
  next same =>
    cases same
    have allowed : ¬ (c < ' ' ∨ c = '\\') := not_or.mpr ⟨Char.not_lt.mpr printable, noEscape⟩
    rw [if_neg allowed]
    cases readPieces rest <;> rfl

theorem readPieces_short {letter c : Char} (escaped : escapedChar? letter = some c)
    (rest : List Char) :
    readPieces ('\\' :: letter :: rest) =
      (readPieces rest).map fun (pieces, rest) => (.char c :: pieces, rest) := by
  have noCode : letter ≠ 'u' := by
    rintro rfl
    cases escaped
  rw [readPieces.eq_def]
  split
  next same => cases same
  next same => exact absurd (List.cons.inj same).1 (by decide)
  next same => exact absurd (List.cons.inj (List.cons.inj same).2).1 noCode
  next same =>
    cases same
    rw [escaped]
    cases readPieces rest <;> rfl
  next others same =>
    obtain ⟨escape, behind⟩ := List.cons.inj same
    exact (others letter rest escape.symm behind.symm).elim

theorem readPieces_code {a b c d : Char} {n : Nat} (unit : hexUnit? a b c d = some n)
    (rest : List Char) :
    readPieces ('\\' :: 'u' :: a :: b :: c :: d :: rest) =
      (readPieces rest).map fun (pieces, rest) => (.unit n :: pieces, rest) := by
  rw [readPieces, unit]
  cases readPieces rest <;> rfl

theorem readPieces_of_spells {pieces : List Piece} {inside : List Char}
    (spells : SpellsPieces pieces inside) (rest : List Char) :
    readPieces (inside ++ '"' :: rest) = some (pieces, rest) := by
  induction spells with
  | done => rfl
  | @next piece text pieces inside single _ inductionHypothesis =>
      rw [List.append_assoc]
      cases single with
      | plain printable noQuote noEscape =>
          rw [List.singleton_append, readPieces_plain printable noQuote noEscape,
            inductionHypothesis]
          rfl
      | short escaped =>
          rw [List.cons_append, List.singleton_append, readPieces_short escaped,
            inductionHypothesis]
          rfl
      | code unit =>
          simp only [List.cons_append, List.nil_append]
          rw [readPieces_code unit, inductionHypothesis]
          rfl

theorem readString_of_spells {key : Option String} {name : List Char}
    (spells : SpellsString key name) (rest : List Char) :
    ∃ behind, name ++ rest = '"' :: behind ∧ readString behind = some (key, rest) := by
  cases spells with
  | @quoted pieces inside spelled =>
      refine ⟨inside ++ '"' :: rest, by simp, ?_⟩
      rw [readString, readPieces_of_spells spelled]
      rfl

/-! Numbers. -/

/-- No number goes on in the text. -/
def Ends (text : List Char) : Prop :=
  ∀ c ∈ text.head?, Decimal.isDigit c = false ∧ c ≠ '.' ∧ c ≠ 'e' ∧ c ≠ 'E'

theorem Ends.nil : Ends [] := by
  intro c membership
  cases membership

theorem Ends.cons {c : Char}
    (other : Decimal.isDigit c = false ∧ c ≠ '.' ∧ c ≠ 'e' ∧ c ≠ 'E') (rest : List Char) :
    Ends (c :: rest) := by
  intro head membership
  cases membership
  exact other

theorem ends_of_isSpaces (blank : IsSpaces blanks) (ends : Ends rest) : Ends (blanks ++ rest) := by
  cases blanks with
  | nil => exact ends
  | cons c blanks =>
      have space := blank c List.mem_cons_self
      refine Ends.cons ?_ _
      simp only [isSpace, Bool.or_eq_true, beq_iff_eq] at space
      rcases space with ((rfl | rfl) | rfl) | rfl <;> decide

/-- No run of digits goes on in the text. -/
def EndsDigits (text : List Char) : Prop :=
  ∀ c ∈ text.head?, Decimal.isDigit c = false

theorem readDigits_append (number : IsDigits digits) (ends : EndsDigits rest) :
    readDigits (digits ++ rest) = some (digits, rest) := by
  obtain ⟨nonempty, all⟩ := number
  have stops : rest.takeWhile Decimal.isDigit = [] := by
    cases rest with
    | nil => rfl
    | cons c rest => exact List.takeWhile_cons_of_neg (by simp [ends c rfl])
  have taken : (digits ++ rest).takeWhile Decimal.isDigit = digits := by
    rw [List.takeWhile_append_of_pos all, stops, List.append_nil]
  obtain ⟨first, others, rfl⟩ := List.exists_cons_of_ne_nil nonempty
  simp only [readDigits, taken]
  rw [List.drop_left]

theorem readExponentDigits_append {sign : List Char}
    (signed : sign = [] ∨ sign = ['+'] ∨ sign = ['-'])
    (number : IsDigits digits) (ends : EndsDigits rest) :
    readExponentDigits (sign ++ (digits ++ rest)) = some (sign ++ digits, rest) := by
  have read := readDigits_append number ends
  rcases signed with rfl | rfl | rfl
  · obtain ⟨first, others, rfl⟩ := List.exists_cons_of_ne_nil number.1
    have digit := number.2 first List.mem_cons_self
    rw [List.nil_append, List.nil_append, readExponentDigits.eq_def]
    split
    next same =>
      rw [(List.cons.inj same).1] at digit
      cases digit
    next same =>
      rw [(List.cons.inj same).1] at digit
      cases digit
    next => exact read
  · simp [readExponentDigits, read]
  · simp [readExponentDigits, read]

theorem readExponent_append {exponent : List Char} (shaped : IsExponent exponent)
    (ends : Ends rest) : readExponent (exponent ++ rest) = some (exponent, rest) := by
  cases shaped with
  | absent =>
      rw [List.nil_append, readExponent.eq_def]
      split
      next => exact absurd rfl (ends 'e' rfl).2.2.1
      next => exact absurd rfl (ends 'E' rfl).2.2.2
      next => rfl
  | @present letter sign digits letters signed number =>
      have read := readExponentDigits_append signed number fun c head => (ends c head).1
      rw [List.cons_append, List.append_assoc]
      rcases letters with rfl | rfl <;> simp [readExponent, read]

theorem ends_exponent {exponent : List Char} (shaped : IsExponent exponent) (ends : Ends rest) :
    ∀ c ∈ (exponent ++ rest).head?, Decimal.isDigit c = false ∧ c ≠ '.' := by
  intro c membership
  cases shaped with
  | absent => exact ⟨(ends c membership).1, (ends c membership).2.1⟩
  | present letters =>
      cases membership
      rcases letters with rfl | rfl <;> decide

theorem readFraction_append {fraction : List Char} (shaped : IsFraction fraction)
    (ends : ∀ c ∈ rest.head?, Decimal.isDigit c = false ∧ c ≠ '.') :
    readFraction (fraction ++ rest) = some (fraction, rest) := by
  cases shaped with
  | absent =>
      rw [List.nil_append, readFraction.eq_def]
      split
      next => exact absurd rfl (ends '.' rfl).2
      next => rfl
  | present number =>
      simp [readFraction, readDigits_append number fun c head => (ends c head).1]

theorem ends_fraction {fraction : List Char} (shaped : IsFraction fraction)
    (ends : EndsDigits rest) : EndsDigits (fraction ++ rest) := by
  intro c membership
  cases shaped with
  | absent => exact ends c membership
  | present =>
      cases membership
      decide

theorem readMagnitude_append {whole fraction exponent : List Char} (isWhole : IsWhole whole)
    (isFraction : IsFraction fraction) (isExponent : IsExponent exponent) (ends : Ends rest) :
    readMagnitude (whole ++ fraction ++ exponent ++ rest) =
      some (whole ++ fraction ++ exponent, rest) := by
  have behind := ends_exponent isExponent ends
  have front := ends_fraction isFraction fun c head => (behind c head).1
  have noZero : ¬ (whole.head? = some '0' ∧ 1 < whole.length) := by
    rintro ⟨zero, long⟩
    rw [isWhole.2 zero] at long
    exact absurd long (by decide)
  rw [List.append_assoc, List.append_assoc, readMagnitude, readDigits_append isWhole.1 front]
  simp only [Option.bind_eq_bind, Option.bind_some, if_neg noZero,
    readFraction_append isFraction behind, readExponent_append isExponent ends]
  rfl

theorem exists_cons_of_isWhole {whole : List Char} (isWhole : IsWhole whole) :
    ∃ first others, whole = first :: others ∧ Decimal.isDigit first = true := by
  obtain ⟨first, others, rfl⟩ := List.exists_cons_of_ne_nil isWhole.1.1
  exact ⟨first, others, rfl, isWhole.1.2 first List.mem_cons_self⟩

theorem readNumber_append {spelling : List Char} (number : IsNumber spelling)
    (ends : Ends rest) : readNumber (spelling ++ rest) = some (spelling, rest) := by
  cases number with
  | @positive whole fraction exponent isWhole isFraction isExponent =>
      have read := readMagnitude_append isWhole isFraction isExponent ends
      obtain ⟨first, others, rfl, digit⟩ := exists_cons_of_isWhole isWhole
      rw [List.cons_append, List.cons_append, List.cons_append] at read ⊢
      rw [readNumber.eq_def]
      split
      next same =>
        rw [(List.cons.inj same).1] at digit
        cases digit
      next => exact read
  | negative isWhole isFraction isExponent =>
      rw [List.cons_append, readNumber, readMagnitude_append isWhole isFraction isExponent ends]
      rfl

/-! Lists of things with commas between. -/

section

variable {α : Type} {spells : α → List Char → Prop}
  {read : List Char → Option (α × List Char)} {limit : Nat} {close : Char}

/-- The reader passes over blanks and takes what is spelled off the front of a text, if it is
shorter than the limit. -/
structure Reads (spells : α → List Char → Prop) (read : List Char → Option (α × List Char))
    (limit : Nat) : Prop where
  skips : ∀ text, read (skipSpace text) = read text
  takes : ∀ {value text}, spells value text → text.length < limit → ∀ {rest}, Ends rest →
    read (text ++ rest) = some (value, rest)

/-- What is spelled starts with a character that is neither a blank nor a closing bracket. -/
def Starts (spells : α → List Char → Prop) : Prop :=
  ∀ {value text}, spells value text →
    ∃ c rest, text = c :: rest ∧ isSpace c = false ∧ c ≠ ']' ∧ c ≠ '\x7d'

theorem Reads.takes_behind (reads : Reads spells read limit) {before : List Char}
    (blank : IsSpaces before) {value : α} (spelled : spells value text)
    (short : text.length < limit) (ends : Ends rest) :
    read (before ++ (text ++ rest)) = some (value, rest) := by
  rw [← reads.skips, skipSpace_append blank, reads.skips]
  exact reads.takes spelled short ends

theorem ends_comma (rest : List Char) : Ends (',' :: rest) :=
  Ends.cons (by decide) rest

theorem readSeparated_listed (reads : Reads spells read limit)
    (bracket : close = ']' ∨ close = '\x7d') {values : List α} {inside : List Char}
    (listed : Listed spells values inside) (short : inside.length < limit) {rounds : Nat}
    (enough : values.length ≤ rounds) (rest : List Char) :
    readSeparated read close rounds (inside ++ close :: rest) = some (values, rest) := by
  have closes : Ends (close :: rest) ∧ isSpace close = false ∧ ',' ≠ close := by
    rcases bracket with rfl | rfl
    · exact ⟨Ends.cons (by decide) rest, by decide, by decide⟩
    · exact ⟨Ends.cons (by decide) rest, by decide, by decide⟩
  obtain ⟨ends, visible, noComma⟩ := closes
  induction listed generalizing rounds with
  | @last before value text after blank spelled behind =>
      obtain ⟨rounds, rfl⟩ := Nat.exists_eq_succ_of_ne_zero (Nat.ne_of_gt enough)
      have length : text.length < limit := by
        simp only [List.length_append] at short
        omega
      have first := reads.takes_behind blank spelled length (ends_of_isSpaces behind ends)
      have closed : skipSpace (after ++ close :: rest) = close :: rest := by
        rw [skipSpace_append behind, skipSpace_cons visible]
      simp only [List.append_assoc]
      simp only [readSeparated, first, Option.bind_eq_bind, Option.bind_some, closed, if_true]
  | @next before value text after values others blank spelled behind _ inductionHypothesis =>
      obtain ⟨rounds, rfl⟩ := Nat.exists_eq_succ_of_ne_zero
        (Nat.ne_of_gt (Nat.lt_of_lt_of_le (Nat.succ_pos _) enough))
      have lengths : text.length < limit ∧ others.length < limit := by
        simp only [List.length_append, List.length_cons] at short
        omega
      have first := reads.takes_behind blank spelled lengths.1
        (ends_of_isSpaces behind (ends_comma (others ++ close :: rest)))
      have separated : skipSpace (after ++ ',' :: (others ++ close :: rest)) =
          ',' :: (others ++ close :: rest) := by
        rw [skipSpace_append behind, skipSpace_cons (by decide)]
      have later := inductionHypothesis lengths.2 (Nat.le_of_succ_le_succ enough)
      simp only [List.append_assoc, List.cons_append]
      simp only [readSeparated, first, Option.bind_eq_bind, Option.bind_some, separated,
        if_neg noComma, if_true, later]
      rfl

theorem readSeparated_skipSpace (reads : Reads spells read limit) (rounds : Nat)
    (text : List Char) :
    readSeparated read close rounds (skipSpace text) = readSeparated read close rounds text := by
  cases rounds with
  | zero => rfl
  | succ rounds => rw [readSeparated, readSeparated, reads.skips]

/-- Each of the things has a character that is no blank. -/
theorem length_le_countP_listed (starts : Starts spells) {values : List α} {inside : List Char}
    (listed : Listed spells values inside) :
    values.length ≤ inside.countP fun c => !isSpace c := by
  have counts : ∀ {value text}, spells value text →
      1 ≤ text.countP fun c => !isSpace c := by
    intro value text spelled
    obtain ⟨c, rest, rfl, visible, _⟩ := starts spelled
    rw [List.countP_cons_of_pos (by simp [visible])]
    exact Nat.le_add_left 1 _
  induction listed with
  | last _ spelled _ =>
      have single := counts spelled
      simp only [List.countP_append, List.length_singleton]
      omega
  | next _ spelled _ _ inductionHypothesis =>
      have single := counts spelled
      simp only [List.countP_append, List.countP_cons, List.length_cons]
      omega

/-- A list of one thing or more does not start with a closing bracket. -/
theorem exists_skipSpace_listed (starts : Starts spells) {values : List α}
    {inside : List Char} (listed : Listed spells values inside) (rest : List Char) :
    ∃ c behind, skipSpace (inside ++ rest) = c :: behind ∧ c ≠ ']' ∧ c ≠ '\x7d' := by
  cases listed with
  | last blank spelled _ | next blank spelled _ _ =>
      obtain ⟨c, behind, rfl, visible, noBracket⟩ := starts spelled
      simp only [List.append_assoc, List.cons_append]
      rw [skipSpace_append blank, skipSpace_cons visible]
      exact ⟨c, _, rfl, noBracket⟩

theorem readList_enclosed (reads : Reads spells read limit) (starts : Starts spells)
    (bracket : close = ']' ∨ close = '\x7d') {values : List α} {inside : List Char}
    (enclosed : Enclosed spells values inside) (short : inside.length < limit)
    (rest : List Char) : readList read close (inside ++ close :: rest) = some (values, rest) := by
  cases enclosed with
  | empty blank =>
      have visible : isSpace close = false := by rcases bracket with rfl | rfl <;> decide
      rw [readList, skipSpace_append blank, skipSpace_cons visible]
      simp
  | some listed =>
      obtain ⟨c, behind, skipped, noBracket⟩ :=
        exists_skipSpace_listed starts listed (close :: rest)
      have opened : c ≠ close := by
        rcases bracket with rfl | rfl
        · exact noBracket.1
        · exact noBracket.2
      have enough : values.length ≤ (c :: behind).length := by
        rw [← skipped]
        refine Nat.le_trans (length_le_countP_listed starts listed) ?_
        refine Nat.le_trans ?_ (countP_le_length_skipSpace _)
        rw [List.countP_append]
        exact Nat.le_add_right _ _
      rw [readList, skipped]
      simp only [if_neg opened]
      rw [← skipped, readSeparated_skipSpace reads, skipped]
      exact readSeparated_listed reads bracket listed short enough rest

end

/-! Values. -/

variable {value : Json} {bound : Nat}

/-- A digit is neither a blank nor a bracket, and starts no other value. -/
theorem head_of_isDigit {c : Char} (digit : Decimal.isDigit c = true) :
    isSpace c = false ∧ c ∉ [']', '\x7d', '[', '\x7b', '"', 'n', 't', 'f'] := by
  refine ⟨?_, ?_⟩
  · rw [Bool.eq_false_iff]
    intro space
    simp only [isSpace, Bool.or_eq_true, beq_iff_eq] at space
    rcases space with ((rfl | rfl) | rfl) | rfl <;> cases digit
  · intro membership
    simp only [List.mem_cons, List.not_mem_nil, or_false] at membership
    rcases membership with rfl | rfl | rfl | rfl | rfl | rfl | rfl | rfl <;> cases digit

theorem head_of_isNumber {spelling : List Char} (number : IsNumber spelling) :
    ∃ first others, spelling = first :: others ∧ isSpace first = false ∧
      first ∉ [']', '\x7d', '[', '\x7b', '"', 'n', 't', 'f'] := by
  cases number with
  | positive isWhole _ _ =>
      obtain ⟨first, others, rfl, digit⟩ := exists_cons_of_isWhole isWhole
      exact ⟨first, _, rfl, head_of_isDigit digit⟩
  | negative => exact ⟨'-', _, rfl, by decide⟩

theorem starts_spells : Starts Spells := by
  intro value text spells
  cases spells with
  | null => exact ⟨_, _, rfl, by decide⟩
  | yes => exact ⟨_, _, rfl, by decide⟩
  | no => exact ⟨_, _, rfl, by decide⟩
  | number number =>
      obtain ⟨first, others, rfl, visible, other⟩ := head_of_isNumber number
      refine ⟨first, others, rfl, visible, ?_⟩
      simp only [List.mem_cons, not_or] at other
      exact ⟨other.1, other.2.1⟩
  | string spelled =>
      cases spelled
      exact ⟨_, _, rfl, by decide⟩
  | array => exact ⟨_, _, rfl, by decide⟩
  | object => exact ⟨_, _, rfl, by decide⟩

theorem starts_labelled : Starts (Labelled Spells) := by
  intro member text labelled
  cases labelled with
  | member name =>
      cases name
      exact ⟨_, _, rfl, by decide⟩

theorem readValue_skipSpace (bound : Nat) (text : List Char) :
    readValue bound (skipSpace text) = readValue bound text := by
  cases bound with
  | zero => rfl
  | succ bound => rw [readValue, readValue, skipSpace_skipSpace]

theorem reads_labelled {limit : Nat} {readOne : List Char → Option (Json × List Char)}
    (reads : Reads Spells readOne limit) : Reads (Labelled Spells) (readMember readOne) limit where
  skips := fun text => by rw [readMember, readMember, skipSpace_skipSpace]
  takes := by
    intro member text labelled short rest ends
    cases labelled with
    | @member key name before after value text named blank behind spelled =>
        obtain ⟨inside, quoted, readName⟩ :=
          readString_of_spells named (before ++ (':' :: (after ++ text) ++ rest))
        have colon : skipSpace (before ++ (':' :: (after ++ text) ++ rest)) =
            ':' :: (after ++ (text ++ rest)) := by
          rw [skipSpace_append blank, List.cons_append, skipSpace_cons (by decide),
            List.append_assoc]
        have length : text.length < limit := by
          simp only [List.length_append, List.length_cons] at short
          omega
        have read := reads.takes_behind behind spelled length ends
        rw [readMember, List.append_assoc, List.append_assoc, quoted, skipSpace_cons (by decide)]
        simp only [readName, Option.bind_eq_bind, Option.bind_some, colon, read]
        rfl

theorem readValue_number {spelling : List Char} (number : IsNumber spelling)
    (ends : Ends rest) (bound : Nat) :
    readValue (bound + 1) (spelling ++ rest) = some (.number spelling, rest) := by
  have read := readNumber_append number ends
  obtain ⟨first, others, rfl, visible, other⟩ := head_of_isNumber number
  simp only [List.mem_cons, List.not_mem_nil, or_false, not_or] at other
  obtain ⟨-, -, noArray, noObject, noString, noNull, noTrue, noFalse⟩ := other
  rw [readValue, List.cons_append, skipSpace_cons visible]
  split
  next same => exact absurd (List.cons.inj same).1 noNull
  next same => exact absurd (List.cons.inj same).1 noTrue
  next same => exact absurd (List.cons.inj same).1 noFalse
  next same => exact absurd (List.cons.inj same).1 noString
  next same => exact absurd (List.cons.inj same).1 noArray
  next same => exact absurd (List.cons.inj same).1 noObject
  next =>
    rw [← List.cons_append, read]
    rfl

/-- By induction on how deep values may be nested: what stands between the brackets of a value
is shorter than the value. -/
theorem reads_readValue (bound : Nat) : Reads Spells (readValue bound) bound := by
  induction bound with
  | zero => exact ⟨readValue_skipSpace 0, fun _ short => absurd short (Nat.not_lt_zero _)⟩
  | succ bound inductionHypothesis =>
      refine ⟨readValue_skipSpace (bound + 1), ?_⟩
      intro value text spells short rest ends
      cases spells with
      | null => rfl
      | yes => rfl
      | no => rfl
      | number number => exact readValue_number number ends bound
      | string spelled =>
          obtain ⟨inside, quoted, read⟩ := readString_of_spells spelled rest
          rw [readValue, quoted, skipSpace_cons (by decide)]
          simp only [read]
          rfl
      | @array items inside enclosed =>
          have inner : inside.length < bound := by
            simp only [List.length_append, List.length_cons] at short
            omega
          have read := readList_enclosed inductionHypothesis starts_spells (.inl rfl) enclosed
            inner rest
          rw [readValue, List.cons_append, List.append_assoc, skipSpace_cons (by decide),
            List.singleton_append]
          simp only [read]
          rfl
      | @object members inside enclosed =>
          have inner : inside.length < bound := by
            simp only [List.length_append, List.length_cons] at short
            omega
          have read := readList_enclosed (reads_labelled inductionHypothesis) starts_labelled
            (.inr rfl) enclosed inner rest
          rw [readValue, List.cons_append, List.append_assoc, skipSpace_cons (by decide),
            List.singleton_append]
          simp only [read]
          rfl

/-- A text that spells a value, with blanks around it, is read as that value. -/
theorem read?_of_spells {before after : List Char} (spells : Spells value text)
    (leading : IsSpaces before) (trailing : IsSpaces after) :
    read? (String.ofList (before ++ (text ++ after))) = some value := by
  have short : text.length < (before ++ (text ++ after)).length + 1 := by
    simp only [List.length_append]
    omega
  have ends : Ends after := by
    rw [← List.append_nil after]
    exact ends_of_isSpaces trailing Ends.nil
  have read := (reads_readValue _).takes_behind leading spells short ends
  have done : skipSpace after = [] := by
    rw [← List.append_nil after, skipSpace_append trailing]
    rfl
  simp only [read?, String.toList_ofList, read, Option.bind_eq_bind, Option.bind_some, done]
  rfl

end CertificateAudit.Json
