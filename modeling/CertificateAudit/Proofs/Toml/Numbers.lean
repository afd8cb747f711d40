import CertificateAudit.Proofs.Toml.Strings

/-!
Numbers and times are read as the grammar has them, and so is every value that is one token
(`readScalar_of_spells`). The readers are tried one after the other: what is spelled as one kind of
token is refused by the readers of the kinds before it.
-/

namespace CertificateAudit.Toml

open CertificateAudit.Text

variable {text rest digits : List Char}

/-- What may stand behind a value: blanks, and then a comma, a bracket, a comment, a line break or
nothing. -/
def Ends (rest : List Char) : Prop :=
  ∀ c ∈ (skipSpace rest).head?, c ∈ [',', ']', '\x7d', '#', '\n', '\r']

theorem Ends.head (ends : Ends rest) :
    ∀ c ∈ rest.head?, c ∈ [' ', '\t', ',', ']', '\x7d', '#', '\n', '\r'] := by
  intro c membership
  cases rest with
  | nil => cases membership
  | cons first rest =>
      cases membership
      cases blank : isSpace c with
      | true =>
          simp only [isSpace, Bool.or_eq_true, beq_iff_eq] at blank
          rcases blank with rfl | rfl <;> decide
      | false =>
          rw [Ends, skipSpace_cons blank] at ends
          exact List.mem_cons_of_mem _ (List.mem_cons_of_mem _ (ends c rfl))

/-- Whatever none of the characters behind a value is, the text behind it does not start with. -/
theorem Ends.avoids (ends : Ends rest) (test : Char → Bool)
    (avoided : [' ', '\t', ',', ']', '\x7d', '#', '\n', '\r'].any test = false) :
    ∀ c ∈ rest.head?, test c = false :=
  fun c membership =>
    Bool.eq_false_iff.mpr (List.any_eq_false.mp avoided c (ends.head c membership))

theorem Ends.leaves (ends : Ends rest) {quote : Char}
    (avoided : quote ∉ [' ', '\t', ',', ']', '\x7d', '#', '\n', '\r']) : Leaves quote rest := by
  rintro c membership rfl
  exact avoided (ends.head c membership)

/-! Digits. -/

/-- No run of digits goes on in the text. -/
def Stops (isDigit : Char → Bool) (text : List Char) : Prop :=
  ∀ c ∈ text.head?, isDigit c = false ∧ c ≠ '_'

theorem stops_nil (isDigit : Char → Bool) : Stops isDigit [] := by
  rintro c ⟨⟩

theorem Stops.cons {isDigit : Char → Bool} {c : Char} (other : isDigit c = false ∧ c ≠ '_')
    (rest : List Char) : Stops isDigit (c :: rest) := by
  rintro d ⟨⟩
  exact other

theorem stops_point (rest : List Char) : Stops Decimal.isDigit ('.' :: rest) :=
  Stops.cons (by decide) rest

section

variable {isDigit : Char → Bool}

theorem more_of_stops (stops : Stops isDigit rest) (digit : Char) :
    readDigits.more isDigit digit rest = ([digit], rest) := by
  cases rest with
  | nil => rfl
  | cons c rest =>
      obtain ⟨noDigit, noUnderscore⟩ := stops c rfl
      rw [readDigits.more.eq_def]
      split
      next same => cases same
      next same => exact absurd (List.cons.inj same).1 noUnderscore
      next same =>
        cases same
        rw [if_neg (by simp [noDigit])]

theorem more_digit {c : Char} (isOne : isDigit c = true) (noUnderscore : isDigit '_' = false)
    (digit : Char) (rest : List Char) :
    readDigits.more isDigit digit (c :: rest) =
      (digit :: (readDigits.more isDigit c rest).1, (readDigits.more isDigit c rest).2) := by
  rw [readDigits.more.eq_def]
  split
  next same => cases same
  next same =>
    rw [(List.cons.inj same).1, noUnderscore] at isOne
    cases isOne
  next same =>
    cases same
    rw [if_pos isOne]

theorem more_separated {c : Char} (isOne : isDigit c = true) (digit : Char) (rest : List Char) :
    readDigits.more isDigit digit ('_' :: c :: rest) =
      (digit :: (readDigits.more isDigit c rest).1, (readDigits.more isDigit c rest).2) := by
  rw [readDigits.more, if_pos isOne]

theorem SpellsDigits.more_eq (spells : SpellsDigits isDigit digits text)
    (noUnderscore : isDigit '_' = false) (stops : Stops isDigit rest) :
    ∃ first others, text = first :: others ∧ isDigit first = true ∧
      readDigits.more isDigit first (others ++ rest) = (digits, rest) := by
  induction spells with
  | @one c isOne => exact ⟨c, [], rfl, isOne, more_of_stops stops c⟩
  | @next c digits text isOne _ inductionHypothesis =>
      obtain ⟨first, others, rfl, isFirst, read⟩ := inductionHypothesis
      exact ⟨c, _, rfl, isOne, by
        rw [List.cons_append, more_digit isFirst noUnderscore, read]⟩
  | @separated c digits text isOne _ inductionHypothesis =>
      obtain ⟨first, others, rfl, isFirst, read⟩ := inductionHypothesis
      exact ⟨c, _, rfl, isOne, by
        rw [List.cons_append, List.cons_append, more_separated isFirst, read]⟩

theorem readDigits_append (spells : SpellsDigits isDigit digits text)
    (noUnderscore : isDigit '_' = false) (stops : Stops isDigit rest) :
    readDigits isDigit (text ++ rest) = some (digits, rest) := by
  obtain ⟨first, others, rfl, isFirst, read⟩ := spells.more_eq noUnderscore stops
  rw [List.cons_append, readDigits, if_pos isFirst, read]

theorem SpellsDigits.of_mem (spells : SpellsDigits isDigit digits text) :
    ∀ c ∈ text, isDigit c = true ∨ c = '_' := by
  induction spells with
  | one isOne =>
      intro c membership
      obtain rfl := List.mem_singleton.mp membership
      exact .inl isOne
  | next isOne _ inductionHypothesis =>
      intro c membership
      rcases List.mem_cons.mp membership with rfl | others
      · exact .inl isOne
      · exact inductionHypothesis c others
  | separated isOne _ inductionHypothesis =>
      intro c membership
      rcases List.mem_cons.mp membership with rfl | others
      · exact .inl isOne
      · rcases List.mem_cons.mp others with rfl | others
        · exact .inr rfl
        · exact inductionHypothesis c others

end

theorem Ends.stops (ends : Ends rest) : Stops Decimal.isDigit rest := by
  intro c membership
  have noDigit := ends.avoids Decimal.isDigit (by decide) c membership
  have noUnderscore := ends.avoids (· == '_') (by decide) c membership
  exact ⟨noDigit, by simpa using noUnderscore⟩

/-! Signs and whole numbers. -/

theorem readSign_append {negative : Bool} {sign : List Char} (spells : SpellsSign negative sign)
    (unsigned : ∀ c ∈ rest.head?, c ≠ '+' ∧ c ≠ '-') :
    readSign (sign ++ rest) = (negative, rest) := by
  cases spells with
  | absent =>
      rw [List.nil_append, readSign.eq_def]
      split
      next => exact absurd rfl (unsigned '-' rfl).2
      next => exact absurd rfl (unsigned '+' rfl).1
      next => rfl
  | plus => rfl
  | minus => rfl

theorem SpellsWhole.exists_cons (spells : SpellsWhole digits text) :
    ∃ first others, text = first :: others ∧ Decimal.isDigit first = true := by
  cases spells with
  | zero => exact ⟨'0', [], rfl, rfl⟩
  | positive spells =>
      obtain ⟨first, others, rfl, isFirst, _⟩ :=
        spells.more_eq rfl (stops_nil Decimal.isDigit)
      exact ⟨first, others, rfl, isFirst⟩

theorem SpellsWhole.of_mem (spells : SpellsWhole digits text) :
    ∀ c ∈ text, Decimal.isDigit c = true ∨ c = '_' := by
  cases spells with
  | zero =>
      intro c membership
      obtain rfl := List.mem_singleton.mp membership
      exact .inl rfl
  | positive spells => exact spells.of_mem

theorem readWhole_append (spells : SpellsWhole digits text)
    (stops : Stops Decimal.isDigit rest) :
    readWhole (text ++ rest) = some (digits, rest) := by
  cases spells with
  | zero => rfl
  | positive spells noZero =>
      rw [readWhole.eq_def]
      split
      next same =>
        obtain ⟨first, others, rfl, _⟩ := spells.more_eq rfl stops
        exact absurd (congrArg some (List.cons.inj same).1) noZero
      next => exact readDigits_append spells rfl stops

theorem ne_sign_of_isDigit {c : Char} (digit : Decimal.isDigit c = true) : c ≠ '+' ∧ c ≠ '-' := by
  constructor
  · rintro rfl
    cases digit
  · rintro rfl
    cases digit

theorem SpellsWhole.unsigned (spells : SpellsWhole digits text) (rest : List Char) :
    ∀ c ∈ (text ++ rest).head?, c ≠ '+' ∧ c ≠ '-' := by
  obtain ⟨first, others, rfl, isFirst⟩ := spells.exists_cons
  rintro c ⟨⟩
  exact ne_sign_of_isDigit isFirst

theorem readExponent_append {n : Int} (spells : SpellsExponent n text)
    (stops : Stops Decimal.isDigit rest) : readExponent (text ++ rest) = some (n, rest) := by
  cases spells with
  | @intro letter negative sign digits text letters signs spells =>
      obtain ⟨first, others, rfl, isFirst, _⟩ := spells.more_eq rfl stops
      have unsigned : ∀ c ∈ (first :: others ++ rest).head?, c ≠ '+' ∧ c ≠ '-' := by
        rintro c ⟨⟩
        exact ne_sign_of_isDigit isFirst
      rw [List.cons_append, List.append_assoc]
      simp only [readExponent, if_pos letters, readSign_append signs unsigned,
        readDigits_append spells rfl stops, Option.bind_eq_bind, Option.bind_some]
      rfl

theorem readExponent_eq_none (other : ∀ c ∈ rest.head?, c ≠ 'e' ∧ c ≠ 'E') :
    readExponent rest = none := by
  cases rest with
  | nil => rfl
  | cons c rest =>
      obtain ⟨noLower, noUpper⟩ := other c rfl
      rw [readExponent, if_neg (not_or.mpr ⟨noLower, noUpper⟩)]

/-! Floating point numbers. -/

theorem Ends.noExponent (ends : Ends rest) : readExponent rest = none := by
  refine readExponent_eq_none fun c membership => ?_
  have noLower := ends.avoids (· == 'e') (by decide) c membership
  have noUpper := ends.avoids (· == 'E') (by decide) c membership
  exact ⟨by simpa using noLower, by simpa using noUpper⟩

theorem SpellsExponent.exists_cons {n : Int} (spells : SpellsExponent n text) :
    ∃ letter others, text = letter :: others ∧ (letter = 'e' ∨ letter = 'E') := by
  cases spells with
  | intro letters => exact ⟨_, _, rfl, letters⟩

theorem SpellsExponent.stops {n : Int} (spells : SpellsExponent n text) (rest : List Char) :
    Stops Decimal.isDigit (text ++ rest) := by
  obtain ⟨letter, others, rfl, rfl | rfl⟩ := spells.exists_cons
  · exact Stops.cons (by decide) _
  · exact Stops.cons (by decide) _

theorem readFloat_number {negative : Bool} {sign whole decimals scale : List Char} {n : Int}
    (signs : SpellsSign negative sign) (wholes : SpellsWhole whole text)
    (scales : SpellsScale decimals n scale)
    (small : negative = true ∨ overflows (whole ++ decimals) (n - decimals.length) = false)
    (ends : Ends rest) : readFloat (sign ++ (text ++ (scale ++ rest))) = some (.float, rest) := by
  have fits : ¬ (!negative && overflows (whole ++ decimals) (n - decimals.length)) = true := by
    rcases small with isNegative | isSmall <;> simp [*]
  have signRead := readSign_append signs (wholes.unsigned (scale ++ rest))
  cases scales with
  | @fraction decimals digits fraction =>
      have wholeRead := readWhole_append wholes (stops_point (digits ++ rest))
      simp only [List.cons_append] at signRead ⊢
      simp only [readFloat, signRead, wholeRead, readDigits_append fraction rfl ends.stops,
        ends.noExponent, Option.bind_eq_bind, Option.bind_some, Option.pure_def, Option.getD_some,
        if_neg fits]
  | exponent exponent =>
      have wholeRead := readWhole_append wholes (exponent.stops rest)
      have exponentRead := readExponent_append exponent ends.stops
      obtain ⟨letter, others, rfl, letters⟩ := exponent.exists_cons
      have noPoint : letter ≠ '.' := by
        rcases letters with rfl | rfl <;> decide
      simp only [List.cons_append] at signRead wholeRead exponentRead ⊢
      simp only [readFloat, signRead, wholeRead, Option.bind_eq_bind, Option.bind_some]
      split
      next same => exact absurd (List.cons.inj same).1 noPoint
      next =>
        simp only [exponentRead, Option.pure_def, Option.bind_some, Option.getD_none,
          if_neg fits]
  | @both decimals n digits behind fraction exponent =>
      have wholeRead := readWhole_append wholes (stops_point (digits ++ (behind ++ rest)))
      have exponentRead := readExponent_append exponent ends.stops
      simp only [List.cons_append, List.append_assoc] at signRead ⊢
      simp only [readFloat, signRead, wholeRead, readDigits_append fraction rfl
        (exponent.stops rest), exponentRead, Option.bind_eq_bind, Option.bind_some,
        Option.pure_def, Option.getD_some, if_neg fits]

/-- A number that has neither a fraction nor an exponent is no floating point number. -/
theorem readFloat_eq_none {negative : Bool} {sign whole : List Char}
    (signs : SpellsSign negative sign) (wholes : SpellsWhole whole text)
    (read : readWhole (text ++ rest) = some (whole, rest))
    (other : ∀ c ∈ rest.head?, c ≠ '.' ∧ c ≠ 'e' ∧ c ≠ 'E') :
    readFloat (sign ++ (text ++ rest)) = none := by
  have signRead := readSign_append signs (wholes.unsigned rest)
  have noExponent := readExponent_eq_none fun c membership => (other c membership).2
  cases rest with
  | nil =>
      simp only [readFloat, signRead, read, noExponent, Option.bind_eq_bind, Option.bind_some,
        Option.pure_def]
      rfl
  | cons c rest =>
      have noPoint := (other c rfl).1
      simp only [readFloat, signRead, read, Option.bind_eq_bind, Option.bind_some]
      split
      next same => exact absurd (List.cons.inj same).1 noPoint
      next =>
        simp only [Option.pure_def, Option.bind_some, noExponent]
        rfl

theorem readSpecialFloat_of_name {negative : Bool} {sign name : List Char}
    (signs : SpellsSign negative sign) (names : name = ['i', 'n', 'f'] ∨ name = ['n', 'a', 'n'])
    (rest : List Char) :
    readSpecialFloat (sign ++ (name ++ rest)) = some (.float, rest) := by
  rcases names with rfl | rfl <;> cases signs <;> rfl

theorem readFloat_of_name {negative : Bool} {sign name : List Char}
    (signs : SpellsSign negative sign) (names : name = ['i', 'n', 'f'] ∨ name = ['n', 'a', 'n'])
    (rest : List Char) : readFloat (sign ++ (name ++ rest)) = none := by
  rcases names with rfl | rfl <;> cases signs <;> rfl

theorem readSpecialFloat_eq_none {negative : Bool} {sign whole : List Char}
    (signs : SpellsSign negative sign) (wholes : SpellsWhole whole text) (rest : List Char) :
    readSpecialFloat (sign ++ (text ++ rest)) = none := by
  rw [readSpecialFloat, readSign_append signs (wholes.unsigned rest)]
  obtain ⟨first, others, rfl, isFirst⟩ := wholes.exists_cons
  split
  next same =>
    rw [(List.cons.inj same).1] at isFirst
    cases isFirst
  next same =>
    rw [(List.cons.inj same).1] at isFirst
    cases isFirst
  next => rfl

/-! Whole numbers. -/

/-- A decimal number does not name a base. -/
theorem ne_based {negative : Bool} {sign : List Char} (signs : SpellsSign negative sign)
    (wholes : SpellsWhole digits text) (ends : Ends rest) (letter : Char) (others : List Char)
    (known : letter ∈ ['x', 'o', 'b']) : sign ++ (text ++ rest) ≠ '0' :: letter :: others := by
  intro same
  cases signs with
  | absent =>
      cases wholes with
      | zero =>
          cases rest with
          | nil => cases same
          | cons c rest =>
              have avoided := ends.avoids (['x', 'o', 'b'].contains ·) (by decide) c rfl
              injection same with _ same
              injection same with same _
              rw [same, List.contains_iff_mem.mpr known] at avoided
              cases avoided
      | positive spells noZero =>
          obtain ⟨first, others, rfl, _⟩ := spells.more_eq rfl ends.stops
          injection same with same _
          exact noZero (congrArg some same)
  | plus => cases same
  | minus => cases same

theorem readInteger_decimal {negative : Bool} {sign : List Char}
    (signs : SpellsSign negative sign) (wholes : SpellsWhole digits text) (ends : Ends rest)
    (fits : Fits (signed negative (Decimal.value digits))) :
    readInteger (sign ++ (text ++ rest)) =
      some (.integer (signed negative (Decimal.value digits)), rest) := by
  have signRead := readSign_append signs (wholes.unsigned rest)
  have wholeRead := readWhole_append wholes ends.stops
  have decimal := ne_based signs wholes ends
  rw [Fits, signed] at fits
  unfold readInteger
  split
  next same => exact absurd same (decimal 'x' _ (by decide))
  next same => exact absurd same (decimal 'o' _ (by decide))
  next same => exact absurd same (decimal 'b' _ (by decide))
  next =>
    simp only [signRead, wholeRead, Option.bind_eq_bind, Option.bind_some, Option.pure_def,
      if_pos fits]
    rfl

theorem readInBase_append {base : Nat} (spells : SpellsDigits (isDigitIn base) digits text)
    (ends : Ends rest) :
    readInBase base (text ++ rest) = some (((valueInBase base digits : Nat) : Int), rest) := by
  have stops : Stops (isDigitIn base) rest := by
    intro c membership
    have noDigit := ends.avoids (fun c => (Hex.digit? c).isSome) (by decide) c membership
    have noUnderscore := ends.avoids (· == '_') (by decide) c membership
    refine ⟨?_, by simpa using noUnderscore⟩
    have noHex : Hex.digit? c = none := Option.not_isSome_iff_eq_none.mp (by rw [noDigit]; decide)
    rw [isDigitIn, noHex]
  have unfolded (text : List Char) : readInBase base text =
      (readDigits (isDigitIn base) text).bind fun found =>
        some (((valueInBase base found.1 : Nat) : Int), found.2) := rfl
  rw [unfolded, readDigits_append spells rfl stops]
  rfl

theorem readInteger_based {letter : Char} {base : Nat} (known : (letter, base) ∈ baseLetters)
    (spells : SpellsDigits (isDigitIn base) digits text) (ends : Ends rest)
    (fits : Fits (valueInBase base digits)) :
    readInteger ('0' :: letter :: (text ++ rest)) =
      some (.integer (valueInBase base digits), rest) := by
  have read := readInBase_append spells ends
  rw [Fits] at fits
  simp only [baseLetters, List.mem_cons, Prod.mk.injEq, List.not_mem_nil, or_false] at known
  rcases known with ⟨rfl, rfl⟩ | ⟨rfl, rfl⟩ | ⟨rfl, rfl⟩ <;>
    simp only [readInteger, read, Option.bind_eq_bind, Option.bind_some, Option.pure_def,
      if_pos fits]

/-! Times. -/

theorem readNumber_append {count lowest highest : Nat}
    (number : IsNumberIn count lowest highest digits) (rest : List Char) :
    readNumber count lowest highest (digits ++ rest) = some (Decimal.value digits, rest) := by
  obtain ⟨length_eq, all, above, below⟩ := number
  have taken : (digits ++ rest).take count = digits := List.take_left' length_eq
  have behind : (digits ++ rest).drop count = rest := List.drop_left' length_eq
  simp only [readNumber, taken, behind]
  exact if_pos ⟨length_eq, List.all_eq_true.mpr all, above, below⟩

theorem expect?_cons (c : Char) (rest : List Char) : expect? c (c :: rest) = some rest :=
  if_pos rfl

theorem skipDay_append {day : List Char} (isDay : IsDay day) (rest : List Char) :
    skipDay (day ++ rest) = some rest := by
  obtain ⟨years, months, days, exists_⟩ := isDay
  simp only [List.append_assoc, List.cons_append]
  simp only [skipDay, readNumber_append years, readNumber_append months, readNumber_append days,
    expect?_cons, Option.bind_eq_bind, Option.bind_some, if_pos exists_]

theorem skipTimeOfDay_append {clock : List Char} (isClock : IsTimeOfDay clock)
    (ends : ∀ c ∈ rest.head?, Decimal.isDigit c = false ∧ c ≠ '.') :
    skipTimeOfDay (clock ++ rest) = some rest := by
  obtain ⟨hours, minutes, seconds, fraction⟩ := isClock
  simp only [List.append_assoc, List.cons_append]
  simp only [skipTimeOfDay, readNumber_append hours, readNumber_append minutes,
    readNumber_append seconds, expect?_cons, Option.bind_eq_bind, Option.bind_some]
  cases fraction with
  | absent =>
      cases rest with
      | nil => rfl
      | cons c rest =>
          rw [List.nil_append]
          split
          next same => exact absurd (List.cons.inj same).1 (ends c rfl).2
          next => rfl
  | @present digits nonempty all =>
      have stops : rest.takeWhile Decimal.isDigit = [] := by
        cases rest with
        | nil => rfl
        | cons c rest => exact List.takeWhile_cons_of_neg (by simp [(ends c rfl).1])
      have taken : (digits ++ rest).takeWhile Decimal.isDigit = digits := by
        rw [List.takeWhile_append_of_pos all, stops, List.append_nil]
      obtain ⟨first, others, rfl⟩ := List.exists_cons_of_ne_nil nonempty
      rw [List.cons_append]
      simp only [taken]
      rw [List.drop_left]
      rfl

theorem skipOffset_append {offset : List Char} (isOffset : IsOffset offset) (ends : Ends rest) :
    skipOffset (offset ++ rest) = some rest := by
  cases isOffset with
  | absent =>
      cases rest with
      | nil => rfl
      | cons c rest =>
          have avoided := ends.avoids (['Z', 'z', '+', '-'].contains ·) (by decide) c rfl
          simp only [List.contains_eq_mem, List.mem_cons, List.not_mem_nil, or_false,
            decide_eq_false_iff_not, not_or] at avoided
          obtain ⟨noUpper, noLower, noPlus, noMinus⟩ := avoided
          rw [List.nil_append, skipOffset, if_neg (not_or.mpr ⟨noUpper, noLower⟩),
            if_neg (not_or.mpr ⟨noPlus, noMinus⟩)]
  | universal letters => exact if_pos letters
  | @shifted c hour minute signs hours minutes =>
      have noLetter : ¬ (c = 'Z' ∨ c = 'z') := by
        rcases signs with rfl | rfl <;> decide
      simp only [List.append_assoc, List.cons_append]
      simp only [skipOffset, if_neg noLetter, if_pos signs, readNumber_append hours,
        readNumber_append minutes, expect?_cons, Option.bind_eq_bind, Option.bind_some]
      rfl

theorem readNumber_eq_none {count : Nat} (other : ∀ c ∈ rest.head?, Decimal.isDigit c = false)
    (lowest highest : Nat) : readNumber (count + 1) lowest highest rest = none := by
  refine if_neg fun passes => ?_
  obtain ⟨full, all, _⟩ := passes
  cases rest with
  | nil => cases full
  | cons c rest =>
      have digit := List.all_eq_true.mp all c List.mem_cons_self
      rw [other c rfl] at digit
      cases digit

/-- No time of day is behind a value. -/
theorem skipJoinedTime_of_ends (ends : Ends rest) : skipJoinedTime rest = some rest := by
  cases rest with
  | nil => rfl
  | cons c rest =>
      by_cases joint : c = 'T' ∨ c = 't' ∨ c = ' '
      · have avoided := ends.avoids (['T', 't'].contains ·) (by decide) c rfl
        have isSpace : c = ' ' := by
          rcases joint with rfl | rfl | rfl
          · cases avoided
          · cases avoided
          · rfl
        subst isSpace
        have behind : Ends rest := ends
        have noNumber : readNumber 2 0 23 rest = none :=
          readNumber_eq_none (behind.avoids Decimal.isDigit (by decide)) 0 23
        rw [skipJoinedTime, if_pos joint, noNumber]
      · rw [skipJoinedTime, if_neg joint]

theorem IsOffset.head {offset : List Char} (isOffset : IsOffset offset) (ends : Ends rest) :
    ∀ c ∈ (offset ++ rest).head?, Decimal.isDigit c = false ∧ c ≠ '.' := by
  intro c membership
  cases isOffset with
  | absent =>
      have noDigit := ends.avoids Decimal.isDigit (by decide) c membership
      have noPoint := ends.avoids (· == '.') (by decide) c membership
      exact ⟨noDigit, by simpa using noPoint⟩
  | universal letters =>
      cases membership
      rcases letters with rfl | rfl <;> decide
  | shifted signs =>
      cases membership
      rcases signs with rfl | rfl <;> decide

theorem skipJoinedTime_append {joint : Char} {clock offset : List Char}
    (joints : joint = 'T' ∨ joint = 't' ∨ joint = ' ') (isClock : IsTimeOfDay clock)
    (isOffset : IsOffset offset) (ends : Ends rest) :
    skipJoinedTime (joint :: (clock ++ (offset ++ rest))) = some rest := by
  have clockRead := skipTimeOfDay_append isClock (isOffset.head ends)
  have offsetRead := skipOffset_append isOffset ends
  obtain ⟨hours, minutes, seconds, fraction⟩ := isClock
  simp only [List.append_assoc, List.cons_append] at clockRead ⊢
  simp only [skipJoinedTime, if_pos joints, readNumber_append hours, clockRead, Option.bind_some,
    offsetRead]

/-- What reads a number takes as many digits off the front of the text. -/
theorem exists_of_readNumber {count lowest highest n : Nat}
    (read : readNumber count lowest highest text = some (n, rest)) :
    ∃ digits, text = digits ++ rest ∧ digits.length = count ∧
      ∀ c ∈ digits, Decimal.isDigit c = true := by
  unfold readNumber at read
  dsimp only at read
  split at read
  case isTrue passes =>
    obtain ⟨full, all, _⟩ := passes
    cases read
    exact ⟨_, (List.take_append_drop count text).symm, full, List.all_eq_true.mp all⟩
  case isFalse => cases read

theorem eq_cons_of_expect? {c : Char} (read : expect? c text = some rest) : text = c :: rest := by
  cases text with
  | nil => cases read
  | cons found text =>
      dsimp only [expect?] at read
      split at read
      case isTrue same =>
        cases read
        rw [same]
      case isFalse => cases read

theorem takeWhile_run {c : Char} (all : ∀ d ∈ digits, Decimal.isDigit d = true)
    (noDigit : Decimal.isDigit c = false) (rest : List Char) :
    (digits ++ c :: rest).takeWhile Decimal.isDigit = digits ∧
      (digits ++ c :: rest).dropWhile Decimal.isDigit = c :: rest := by
  constructor
  · rw [List.takeWhile_append_of_pos all, List.takeWhile_cons_of_neg (by simp [noDigit]),
      List.append_nil]
  · rw [List.dropWhile_append_of_pos all, List.dropWhile_cons_of_neg (by simp [noDigit])]

/-- A day starts with four digits and a dash. -/
theorem skipDay_front (read : skipDay text = some rest) :
    (text.takeWhile Decimal.isDigit).length = 4 ∧
      (text.dropWhile Decimal.isDigit).head? = some '-' := by
  simp only [skipDay, Option.bind_eq_bind, Option.bind_eq_some_iff, Prod.exists] at read
  obtain ⟨year, behind, yearRead, others, dashed, _⟩ := read
  obtain ⟨digits, rfl, four, all⟩ := exists_of_readNumber yearRead
  obtain rfl := eq_cons_of_expect? dashed
  obtain ⟨taken, left⟩ := takeWhile_run all (by decide : Decimal.isDigit '-' = false) others
  exact ⟨by rw [taken, four], by rw [left]; rfl⟩

theorem skipTimeOfDay_front (read : skipTimeOfDay text = some rest) :
    (text.takeWhile Decimal.isDigit).length = 2 ∧
      (text.dropWhile Decimal.isDigit).head? = some ':' := by
  simp only [skipTimeOfDay, Option.bind_eq_bind, Option.bind_eq_some_iff, Prod.exists] at read
  obtain ⟨hour, behind, hourRead, others, parted, _⟩ := read
  obtain ⟨digits, rfl, two, all⟩ := exists_of_readNumber hourRead
  obtain rfl := eq_cons_of_expect? parted
  obtain ⟨taken, left⟩ := takeWhile_run all (by decide : Decimal.isDigit ':' = false) others
  exact ⟨by rw [taken, two], by rw [left]; rfl⟩

theorem skipDay_of_clock {clock : List Char} (isClock : IsTimeOfDay clock) (rest : List Char) :
    skipDay (clock ++ rest) = none := by
  obtain ⟨hours, _⟩ := isClock
  by_contra given
  obtain ⟨behind, read⟩ := Option.ne_none_iff_exists'.mp given
  have front := (skipDay_front read).1
  simp only [List.append_assoc, List.cons_append] at front
  rw [(takeWhile_run hours.all_digits (by decide) _).1, hours.length_eq] at front
  cases front

theorem readTime_of_isTime (isTime : IsTime text) (ends : Ends rest) :
    readTime (text ++ rest) = some (.time, rest) := by
  cases isTime with
  | day isDay =>
      simp only [readTime, skipDay_append isDay, skipJoinedTime_of_ends ends, Option.map_some]
  | clock isClock =>
      have noDigit := ends.avoids Decimal.isDigit (by decide)
      have noPoint := ends.avoids (· == '.') (by decide)
      have clockRead := skipTimeOfDay_append isClock fun c membership =>
        ⟨noDigit c membership, by simpa using noPoint c membership⟩
      simp only [readTime, skipDay_of_clock isClock, clockRead, Option.map_some]
  | moment isDay joints isClock isOffset =>
      simp only [List.append_assoc, List.cons_append]
      simp only [readTime, skipDay_append isDay,
        skipJoinedTime_append joints isClock isOffset ends, Option.map_some]

/-- A text that starts with no digit, or with a run of digits and neither a dash nor a colon behind
it, is no time. -/
theorem readTime_eq_none (other : text.takeWhile Decimal.isDigit = [] ∨
    ∀ c ∈ (text.dropWhile Decimal.isDigit).head?, c ≠ '-' ∧ c ≠ ':') : readTime text = none := by
  have noDay : skipDay text = none := by
    by_contra given
    obtain ⟨behind, read⟩ := Option.ne_none_iff_exists'.mp given
    obtain ⟨four, dash⟩ := skipDay_front read
    rcases other with empty | other
    · rw [empty] at four
      cases four
    · exact (other '-' dash).1 rfl
  have noClock : skipTimeOfDay text = none := by
    by_contra given
    obtain ⟨behind, read⟩ := Option.ne_none_iff_exists'.mp given
    obtain ⟨two, colon⟩ := skipTimeOfDay_front read
    rcases other with empty | other
    · rw [empty] at two
      cases two
    · exact (other ':' colon).2 rfl
  simp only [readTime, noDay, noClock, Option.map_none]

theorem head_dropWhile_append (digits : ∀ c ∈ text, Decimal.isDigit c = true ∨ c = '_')
    (other : ∀ c ∈ rest.head?, Decimal.isDigit c = false ∧ c ≠ '-' ∧ c ≠ ':') :
    ∀ c ∈ ((text ++ rest).dropWhile Decimal.isDigit).head?, c ≠ '-' ∧ c ≠ ':' := by
  induction text with
  | nil =>
      cases rest with
      | nil => rintro c ⟨⟩
      | cons first rest =>
          obtain ⟨noDigit, noDash, noColon⟩ := other first rfl
          rw [List.nil_append, List.dropWhile_cons_of_neg (by simp [noDigit])]
          rintro c ⟨⟩
          exact ⟨noDash, noColon⟩
  | cons first text inductionHypothesis =>
      have others := inductionHypothesis fun c membership =>
        digits c (List.mem_cons_of_mem first membership)
      rcases digits first List.mem_cons_self with digit | rfl
      · rw [List.cons_append, List.dropWhile_cons_of_pos digit]
        exact others
      · rintro c ⟨⟩
        decide

/-- A number is no time, as long as there is no dash or colon behind its whole part. -/
theorem readTime_of_whole {negative : Bool} {sign whole : List Char}
    (signs : SpellsSign negative sign) (wholes : SpellsWhole whole text)
    (other : ∀ c ∈ rest.head?, Decimal.isDigit c = false ∧ c ≠ '-' ∧ c ≠ ':') :
    readTime (sign ++ (text ++ rest)) = none := by
  cases signs with
  | absent =>
      rw [List.nil_append]
      exact readTime_eq_none (.inr (head_dropWhile_append wholes.of_mem other))
  | plus => exact readTime_eq_none (.inl rfl)
  | minus => exact readTime_eq_none (.inl rfl)

/-! Values that are one token. -/

/-- The text starts like a number or a time. -/
def StartsNumber (text : List Char) : Prop :=
  ∃ first others, text = first :: others ∧
    (Decimal.isDigit first = true ∨ first ∈ ['+', '-', 'i', 'n'])

theorem StartsNumber.append (starts : StartsNumber text) (rest : List Char) :
    StartsNumber (text ++ rest) := by
  obtain ⟨first, others, rfl, known⟩ := starts
  exact ⟨first, _, rfl, known⟩

theorem SpellsSign.startsNumber {negative : Bool} {sign : List Char}
    (signs : SpellsSign negative sign) (starts : StartsNumber text) :
    StartsNumber (sign ++ text) := by
  cases signs with
  | absent => exact starts
  | plus => exact ⟨_, _, rfl, .inr (by decide)⟩
  | minus => exact ⟨_, _, rfl, .inr (by decide)⟩

theorem SpellsWhole.startsNumber (wholes : SpellsWhole digits text) : StartsNumber text := by
  obtain ⟨first, others, rfl, isFirst⟩ := wholes.exists_cons
  exact ⟨first, others, rfl, .inl isFirst⟩

theorem SpellsInteger.startsNumber {n : Int} (spells : SpellsInteger n text) :
    StartsNumber text := by
  cases spells with
  | decimal signs wholes => exact signs.startsNumber wholes.startsNumber
  | based => exact ⟨_, _, rfl, .inl rfl⟩

theorem IsFloat.startsNumber {limits : Limits} (float : IsFloat limits text) :
    StartsNumber text := by
  cases float with
  | number signs wholes => exact signs.startsNumber (wholes.startsNumber.append _)
  | special signs names =>
      refine signs.startsNumber ?_
      rcases names with rfl | rfl
      · exact ⟨_, _, rfl, .inr (by decide)⟩
      · exact ⟨_, _, rfl, .inr (by decide)⟩

theorem IsNumberIn.startsNumber {count lowest highest : Nat}
    (number : IsNumberIn (count + 1) lowest highest digits) : StartsNumber digits := by
  obtain ⟨length_eq, all, _⟩ := number
  cases digits with
  | nil => cases length_eq
  | cons first digits => exact ⟨first, digits, rfl, .inl (all first List.mem_cons_self)⟩

theorem IsTime.startsNumber (isTime : IsTime text) : StartsNumber text := by
  cases isTime with
  | day isDay =>
      obtain ⟨years, _⟩ := isDay
      exact years.startsNumber.append _
  | clock isClock =>
      obtain ⟨hours, _⟩ := isClock
      exact hours.startsNumber.append _
  | moment isDay =>
      obtain ⟨years, _⟩ := isDay
      exact (years.startsNumber.append _).append _

theorem readScalar_of_startsNumber (starts : StartsNumber text) :
    readScalar text =
      (readTime text <|> readFloat text <|> readSpecialFloat text <|> readInteger text) := by
  obtain ⟨first, others, rfl, known⟩ := starts
  have other (c : Char) (noDigit : Decimal.isDigit c = false) (unknown : c ∉ ['+', '-', 'i', 'n']) :
      first ≠ c := by
    rintro rfl
    rcases known with digit | known
    · cases digit.symm.trans noDigit
    · exact unknown known
  rw [readScalar.eq_def]
  split
  next same => exact absurd (List.cons.inj same).1 (other 't' (by decide) (by decide))
  next same => exact absurd (List.cons.inj same).1 (other 'f' (by decide) (by decide))
  next same => exact absurd (List.cons.inj same).1 (other '"' (by decide) (by decide))
  next same => exact absurd (List.cons.inj same).1 (other '\'' (by decide) (by decide))
  next => rfl

theorem readScalar_integer {n : Int} (integer : SpellsInteger n text) (fits : Fits n)
    (ends : Ends rest) : readScalar (text ++ rest) = some (.integer n, rest) := by
  cases integer with
  | @decimal negative sign digits text signs wholes =>
      have behind (c : Char) (membership : c ∈ rest.head?) :=
        ends.avoids (['-', ':', '.', 'e', 'E'].contains ·) (by decide) c membership
      simp only [List.contains_eq_mem, List.mem_cons, List.not_mem_nil, or_false,
        decide_eq_false_iff_not, not_or] at behind
      have noTime := readTime_of_whole signs wholes fun c membership =>
        ⟨(ends.stops c membership).1, (behind c membership).1, (behind c membership).2.1⟩
      have noFloat := readFloat_eq_none signs wholes (readWhole_append wholes ends.stops)
        fun c membership => (behind c membership).2.2
      have starts := (signs.startsNumber wholes.startsNumber).append rest
      rw [readScalar_of_startsNumber starts, List.append_assoc, noTime, noFloat,
        readSpecialFloat_eq_none signs wholes rest, readInteger_decimal signs wholes ends fits]
      rfl
  | @based letter base digits text known spells =>
      have letters : letter ≠ '-' ∧ letter ≠ ':' ∧ letter ≠ '.' ∧ letter ≠ 'e' ∧ letter ≠ 'E' ∧
          Decimal.isDigit letter = false := by
        simp only [baseLetters, List.mem_cons, Prod.mk.injEq, List.not_mem_nil, or_false] at known
        rcases known with ⟨rfl, _⟩ | ⟨rfl, _⟩ | ⟨rfl, _⟩ <;> decide
      obtain ⟨noDash, noColon, noPoint, noLower, noUpper, noDigit⟩ := letters
      have noTime : readTime ([] ++ (['0'] ++ letter :: (text ++ rest))) = none :=
        readTime_of_whole .absent .zero (by
          rintro c ⟨⟩
          exact ⟨noDigit, noDash, noColon⟩)
      have noFloat : readFloat ([] ++ (['0'] ++ letter :: (text ++ rest))) = none :=
        readFloat_eq_none .absent .zero rfl (by
          rintro c ⟨⟩
          exact ⟨noPoint, noLower, noUpper⟩)
      have noSpecial := readSpecialFloat_eq_none .absent .zero (letter :: (text ++ rest))
      have starts : StartsNumber ('0' :: letter :: (text ++ rest)) := ⟨_, _, rfl, .inl rfl⟩
      simp only [List.nil_append, List.cons_append] at noTime noFloat noSpecial ⊢
      rw [readScalar_of_startsNumber starts, noTime, noFloat, noSpecial,
        readInteger_based known spells ends fits]
      rfl

theorem SpellsScale.head {decimals : List Char} {n : Int} (scales : SpellsScale decimals n text)
    (rest : List Char) :
    ∀ c ∈ (text ++ rest).head?, Decimal.isDigit c = false ∧ c ≠ '-' ∧ c ≠ ':' := by
  cases scales with
  | fraction =>
      rintro c ⟨⟩
      decide
  | exponent exponent =>
      obtain ⟨letter, others, rfl, rfl | rfl⟩ := exponent.exists_cons
      · rintro c ⟨⟩
        decide
      · rintro c ⟨⟩
        decide
  | both =>
      rintro c ⟨⟩
      decide

theorem readScalar_float {limits : Limits} (strict : limits.largeFloats = false)
    (float : IsFloat limits text) (ends : Ends rest) :
    readScalar (text ++ rest) = some (.float, rest) := by
  rw [readScalar_of_startsNumber (float.startsNumber.append rest)]
  cases float with
  | @number negative sign whole text decimals n scale signs wholes scales small =>
      have small := small.resolve_left (by simp [strict])
      rw [List.append_assoc, List.append_assoc, readTime_of_whole signs wholes (scales.head rest),
        readFloat_number signs wholes scales small ends]
      rfl
  | @special negative sign name signs names =>
      have noTime : readTime (sign ++ (name ++ rest)) = none := by
        rcases names with rfl | rfl <;> cases signs <;> exact readTime_eq_none (.inl rfl)
      rw [List.append_assoc, noTime, readFloat_of_name signs names,
        readSpecialFloat_of_name signs names]
      rfl

theorem readScalar_text {content : List Char} (spells : SpellsString content text)
    (ends : Ends rest) :
    readScalar (text ++ rest) = some (.text (String.ofList content), rest) := by
  have read := readText_of_spells spells (ends.leaves (by decide)) (ends.leaves (by decide))
  cases spells <;> simp only [List.cons_append] at read ⊢ <;>
    simp only [readScalar, read, Option.map_some]

/-- What the grammar has as one token is read as the value of that token, and nothing behind it. -/
theorem readScalar_of_spells {limits : Limits} {value : Value}
    (strict : limits.largeFloats = false) (spells : SpellsScalar limits value text)
    (ends : Ends rest) : readScalar (text ++ rest) = some (value, rest) := by
  cases spells with
  | text string => exact readScalar_text string ends
  | integer integer fits => exact readScalar_integer integer fits ends
  | float float => exact readScalar_float strict float ends
  | yes => rfl
  | no => rfl
  | time isTime =>
      rw [readScalar_of_startsNumber (isTime.startsNumber.append rest),
        readTime_of_isTime isTime ends]
      rfl

end CertificateAudit.Toml
