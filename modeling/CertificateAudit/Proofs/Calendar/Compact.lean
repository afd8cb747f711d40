import CertificateAudit.Proofs.Calendar.Stamp
import CertificateAudit.Proofs.Traversal

/-!
What a pattern of numbers reads. A number may have blanks in front of it, it ends where its field
is full or where no digit follows, and a year may have a sign and then any number of digits
(`IsNumber`); a text is read exactly if it is made of such numbers (`readMoment_compact_iff`). A
text of fourteen characters without a blank is then fourteen digits, those of the moment
(`exists_stamp_of_spells`).
-/

namespace CertificateAudit.Calendar

open CertificateAudit.Text

variable {width : Option Nat} {text digits number rest : List Char} {n : Nat}

/-! Runs of digits. -/

/-- No run of digits goes on in the text. -/
def EndsDigits (text : List Char) : Prop :=
  ∀ c ∈ text.head?, Decimal.isDigit c = false

/-- Digits that end where their field is full or where no digit follows. -/
structure IsRun (width : Option Nat) (digits rest : List Char) : Prop where
  given : digits ≠ []
  all : ∀ c ∈ digits, Decimal.isDigit c = true
  fits : ∀ most ∈ width, digits.length ≤ most
  ends : width = some digits.length ∨ EndsDigits rest

theorem endsDigits_nil : EndsDigits [] := by
  intro c membership
  cases membership

theorem endsDigits_dropWhile (text : List Char) : EndsDigits (text.dropWhile Decimal.isDigit) := by
  intro c membership
  have stops := List.head?_dropWhile_not Decimal.isDigit text
  rw [membership] at stops
  simpa using stops

theorem EndsDigits.take (ends : EndsDigits rest) (count : Nat) : EndsDigits (rest.take count) := by
  intro c membership
  cases count with
  | zero => cases membership
  | succ count =>
      cases rest with
      | nil => cases membership
      | cons head rest => exact ends c membership

theorem takeWhile_append_of_endsDigits (all : ∀ c ∈ digits, Decimal.isDigit c = true)
    (ends : EndsDigits rest) : (digits ++ rest).takeWhile Decimal.isDigit = digits := by
  have stops : rest.takeWhile Decimal.isDigit = [] := by
    cases rest with
    | nil => rfl
    | cons c rest => exact List.takeWhile_cons_of_neg (by simp [ends c rfl])
  rw [List.takeWhile_append_of_pos all, stops, List.append_nil]

/-- The characters in which a field looks for its digits. -/
def window (width : Option Nat) (text : List Char) : List Char :=
  match width with
  | some width => text.take width
  | none => text

theorem IsRun.takeWhile_window (run : IsRun width digits rest) :
    (window width (digits ++ rest)).takeWhile Decimal.isDigit = digits := by
  obtain ⟨_, all, fits, ends⟩ := run
  cases width with
  | none => exact takeWhile_append_of_endsDigits all (ends.resolve_left nofun)
  | some width =>
      have within := fits width rfl
      rw [window, List.take_append, List.take_of_length_le within]
      rcases ends with full | ends
      · rw [Option.some.inj full, Nat.sub_self, List.take_zero]
        exact takeWhile_append_of_endsDigits all endsDigits_nil
      · exact takeWhile_append_of_endsDigits all (ends.take _)

theorem exists_isRun (given : (window width text).takeWhile Decimal.isDigit ≠ []) :
    ∃ rest, text = (window width text).takeWhile Decimal.isDigit ++ rest ∧
      IsRun width ((window width text).takeWhile Decimal.isDigit) rest := by
  have all : ∀ c ∈ (window width text).takeWhile Decimal.isDigit, Decimal.isDigit c = true :=
    fun c membership => List.mem_takeWhile_imp membership
  cases width with
  | none =>
      refine ⟨text.dropWhile Decimal.isDigit, List.takeWhile_append_dropWhile.symm, given, all,
        ?_, .inr (endsDigits_dropWhile text)⟩
      intro most impossible
      cases impossible
  | some width =>
      have front : (text.take width).takeWhile Decimal.isDigit ++
          (text.take width).dropWhile Decimal.isDigit = text.take width :=
        List.takeWhile_append_dropWhile
      have split : text = (text.take width).takeWhile Decimal.isDigit ++
          ((text.take width).dropWhile Decimal.isDigit ++ text.drop width) := by
        rw [← List.append_assoc, front, List.take_append_drop]
      refine ⟨_, split, given, all, ?_, ?_⟩
      · rintro most ⟨⟩
        exact (List.takeWhile_sublist _).length_le.trans (List.length_take_le width text)
      · cases behind : (text.take width).dropWhile Decimal.isDigit with
        | nil =>
            rw [behind, List.append_nil] at front
            by_cases enough : width ≤ text.length
            · left
              rw [window, front, List.length_take_of_le enough]
            · right
              rw [List.nil_append, List.drop_of_length_le (Nat.le_of_not_le enough)]
              exact endsDigits_nil
        | cons c others =>
            right
            have stops := endsDigits_dropWhile (text.take width)
            rw [behind] at stops
            exact fun head membership => stops head membership

theorem readDigits_of_no_run (absent : (window width text).takeWhile Decimal.isDigit = []) :
    readDigits width text ≠ .ok (n, rest) := by
  intro read
  unfold readDigits at read
  cases width <;> dsimp only [window] at absent <;> simp only [absent] at read <;>
    cases text <;> cases read

theorem readDigits_of_run {digits : List Char} (nonempty : digits ≠ [])
    (run : (window width text).takeWhile Decimal.isDigit = digits) :
    readDigits width text =
      if Decimal.value digits ≤ 9223372036854775807 then
        .ok (Decimal.value digits, text.drop digits.length)
      else .error .outOfRange := by
  obtain ⟨first, others, rfl⟩ := List.exists_cons_of_ne_nil nonempty
  cases width <;> cases text <;> simp_all [readDigits, window]

theorem readDigits_eq_ok_iff :
    readDigits width text = .ok (n, rest) ↔
      ∃ digits, text = digits ++ rest ∧ IsRun width digits rest ∧
        Decimal.value digits = n ∧ n ≤ 9223372036854775807 := by
  constructor
  · intro read
    have found := @exists_isRun width text
    generalize same : (window width text).takeWhile Decimal.isDigit = digits at found
    by_cases absent : digits = []
    · exact absurd read (readDigits_of_no_run (same.trans absent))
    · obtain ⟨behind, rfl, run⟩ := found absent
      rw [readDigits_of_run absent same, List.drop_left] at read
      split at read
      case isTrue small =>
        cases read
        exact ⟨digits, rfl, run, rfl, small⟩
      case isFalse => cases read
  · rintro ⟨digits, rfl, run, rfl, small⟩
    rw [readDigits_of_run run.given run.takeWhile_window, if_pos small, List.drop_left]

/-! Numbers. -/

/-- A number in a field: its digits, or in a year any number of digits behind a sign. -/
inductive IsNumber : Field → Int → List Char → List Char → Prop where
  | plain {field : Field} {digits rest : List Char} :
      IsRun (some (Field.width field)) digits rest →
      IsNumber field (Decimal.value digits) digits rest
  | positive {digits rest : List Char} :
      IsRun none digits rest → IsNumber .year (Decimal.value digits) ('+' :: digits) rest
  | negative {digits rest : List Char} :
      IsRun none digits rest → IsNumber .year (-(Decimal.value digits)) ('-' :: digits) rest

namespace Field

/-- Whether a number can be put into a field. Years are looked at later. -/
def Holds (n : Int) : Field → Prop
  | .year => -2147483648 ≤ n ∧ n ≤ 2147483647
  | .month => 1 ≤ n ∧ n ≤ 12
  | .day => 1 ≤ n ∧ n ≤ 31
  | .hour => 0 ≤ n ∧ n ≤ 23
  | .minute => 0 ≤ n ∧ n ≤ 59
  | .second => 0 ≤ n ∧ n ≤ 60

/-- The parts with a number in its field. -/
def place (n : Int) (parts : Parts) : Field → Parts
  | .year => { parts with year := n }
  | .month => { parts with month := n.toNat }
  | .day => { parts with day := n.toNat }
  | .hour => { parts with hour := n.toNat }
  | .minute => { parts with minute := n.toNat }
  | .second => { parts with second := n.toNat }

end Field

theorem readTwoDigits_eq_ok_iff {lowest highest : Nat} (short : highest < 100) :
    readTwoDigits lowest highest text = .ok (n, rest) ↔
      ∃ digits, text = digits ++ rest ∧ IsRun (some 2) digits rest ∧
        Decimal.value digits = n ∧ lowest ≤ n ∧ n ≤ highest := by
  constructor
  · intro read
    obtain ⟨⟨value, behind⟩, digits, put⟩ := bind_eq_ok_iff.mp read
    obtain ⟨run, split, isRun, rfl, _⟩ := readDigits_eq_ok_iff.mp digits
    dsimp only at put
    split at put
    case isTrue inRange =>
      cases put
      exact ⟨run, split, isRun, rfl, inRange⟩
    case isFalse => cases put
  · rintro ⟨digits, rfl, run, rfl, inRange⟩
    have read := readDigits_eq_ok_iff.mpr ⟨digits, rfl, run, rfl, by omega⟩
    rw [readTwoDigits, read]
    exact if_pos inRange

theorem readYear_eq_ok_iff {year : Int} :
    readYear text = .ok (year, rest) ↔
      ∃ number, text = number ++ rest ∧ IsNumber .year year number rest ∧
        Field.Holds year .year := by
  have checked {n : Int} {behind : List Char}
      (read : (if -2147483648 ≤ n ∧ n ≤ 2147483647 then .ok (n, behind) else .error .outOfRange) =
        Except.ok (ε := PatternError) (year, rest)) :
      n = year ∧ behind = rest ∧ Field.Holds n .year := by
    split at read <;> cases read
    exact ⟨rfl, rfl, ‹_›⟩
  constructor
  · intro read
    unfold readYear at read
    dsimp only at read
    split at read
    case h_1 =>
      obtain ⟨⟨n, behind⟩, spelled, read⟩ := bind_eq_ok_iff.mp read
      obtain ⟨digits, rfl, run, rfl, _⟩ := readDigits_eq_ok_iff.mp spelled
      obtain ⟨rfl, rfl, inRange⟩ := checked read
      exact ⟨'-' :: digits, rfl, .negative run, inRange⟩
    case h_2 =>
      obtain ⟨⟨n, behind⟩, spelled, read⟩ := bind_eq_ok_iff.mp read
      obtain ⟨digits, rfl, run, rfl, _⟩ := readDigits_eq_ok_iff.mp spelled
      obtain ⟨rfl, rfl, inRange⟩ := checked read
      exact ⟨'+' :: digits, rfl, .positive run, inRange⟩
    case h_3 =>
      obtain ⟨⟨n, behind⟩, spelled, read⟩ := bind_eq_ok_iff.mp read
      obtain ⟨digits, rfl, run, rfl, _⟩ := readDigits_eq_ok_iff.mp spelled
      obtain ⟨rfl, rfl, inRange⟩ := checked read
      exact ⟨digits, rfl, .plain run, inRange⟩
  · rintro ⟨number, rfl, spelled, inRange⟩
    have inRange : -2147483648 ≤ year ∧ year ≤ 2147483647 := inRange
    cases spelled with
    | plain run =>
        have read := readDigits_eq_ok_iff.mpr ⟨number, rfl, run, rfl, by omega⟩
        obtain ⟨first, others, rfl⟩ := List.exists_cons_of_ne_nil run.given
        have digit := run.all first List.mem_cons_self
        have unsigned : first ≠ '-' ∧ first ≠ '+' := by
          refine ⟨?_, ?_⟩ <;>
            · rintro rfl
              cases digit
        rw [List.cons_append] at read ⊢
        unfold readYear
        dsimp only
        split
        next same => exact absurd (List.cons.inj same).1 unsigned.1
        next same => exact absurd (List.cons.inj same).1 unsigned.2
        next => exact bind_eq_ok_iff.mpr ⟨_, read, if_pos inRange⟩
    | positive run | negative run =>
        have read := readDigits_eq_ok_iff.mpr ⟨_, rfl, run, rfl, by omega⟩
        exact bind_eq_ok_iff.mpr ⟨_, read, if_pos inRange⟩

/-- Only a year can have a sign. -/
theorem IsNumber.unsigned {field : Field} {n : Int} (noYear : field ≠ .year)
    (isNumber : IsNumber field n number rest) :
    IsRun (some 2) number rest ∧ n = Decimal.value number := by
  cases isNumber with
  | plain run => cases field <;> first | exact absurd rfl noYear | exact ⟨run, rfl⟩
  | positive | negative => exact absurd rfl noYear

theorem Field.read_trimmed_iff {field : Field} {parts parts' : Parts} :
    field.read text parts = .ok (parts', rest) ↔
      ∃ number n, trimStart text = number ++ rest ∧ IsNumber field n number rest ∧
        field.Holds n ∧ parts' = field.place n parts := by
  have twoDigits (field : Field) (lowest highest : Nat) (noYear : field ≠ .year)
      (short : highest < 100) (holds : ∀ n : Nat, lowest ≤ n ∧ n ≤ highest ↔ field.Holds n) :
      (readTwoDigits lowest highest (trimStart text) >>= fun found =>
          pure (field.place (found.1 : Nat) parts, found.2)) = Except.ok (parts', rest) ↔
        ∃ number n, trimStart text = number ++ rest ∧ IsNumber field n number rest ∧
          field.Holds n ∧ parts' = field.place n parts := by
    constructor
    · intro read
      obtain ⟨⟨n, behind⟩, spelled, put⟩ := bind_eq_ok_iff.mp read
      obtain ⟨number, split, run, rfl, inRange⟩ := (readTwoDigits_eq_ok_iff short).mp spelled
      cases put
      have width : some field.width = some 2 := by
        cases field <;> first | exact absurd rfl noYear | rfl
      exact ⟨number, _, split, .plain (width ▸ run), (holds _).mp inRange, rfl⟩
    · rintro ⟨number, n, split, isNumber, inRange, rfl⟩
      obtain ⟨run, rfl⟩ := isNumber.unsigned noYear
      have read := (readTwoDigits_eq_ok_iff short).mpr
        ⟨number, split, run, rfl, (holds _).mpr inRange⟩
      exact bind_eq_ok_iff.mpr ⟨_, read, rfl⟩
  cases field with
  | year =>
      constructor
      · intro read
        obtain ⟨⟨year, behind⟩, spelled, put⟩ := bind_eq_ok_iff.mp read
        obtain ⟨number, split, isNumber, inRange⟩ := readYear_eq_ok_iff.mp spelled
        cases put
        exact ⟨number, year, split, isNumber, inRange, rfl⟩
      · rintro ⟨number, year, split, isNumber, inRange, rfl⟩
        have read := readYear_eq_ok_iff.mpr ⟨number, split, isNumber, inRange⟩
        exact bind_eq_ok_iff.mpr ⟨_, read, rfl⟩
  | month =>
      exact twoDigits .month 1 12 (by decide) (by decide) fun n => by simp only [Holds]; omega
  | day => exact twoDigits .day 1 31 (by decide) (by decide) fun n => by simp only [Holds]; omega
  | hour => exact twoDigits .hour 0 23 (by decide) (by decide) fun n => by simp only [Holds]; omega
  | minute =>
      exact twoDigits .minute 0 59 (by decide) (by decide) fun n => by simp only [Holds]; omega
  | second =>
      exact twoDigits .second 0 60 (by decide) (by decide) fun n => by simp only [Holds]; omega

/-- A number starts with a digit or a sign, which is not passed over as a blank. -/
theorem IsNumber.exists_cons {field : Field} {n : Int} (isNumber : IsNumber field n number rest) :
    ∃ first others, number = first :: others ∧ isBlank first = false ∧
      (field ≠ .year → Decimal.isDigit first = true) := by
  cases isNumber with
  | plain run =>
      obtain ⟨first, others, rfl⟩ := List.exists_cons_of_ne_nil run.given
      have digit := run.all first List.mem_cons_self
      exact ⟨first, others, rfl, isBlank_of_isDigit digit, fun _ => digit⟩
  | positive => exact ⟨'+', _, rfl, by decide, fun noYear => absurd rfl noYear⟩
  | negative => exact ⟨'-', _, rfl, by decide, fun noYear => absurd rfl noYear⟩

/-- A text without anything but blanks. -/
def IsBlanks (text : List Char) : Prop :=
  ∀ c ∈ text, isBlank c = true

theorem Field.read_eq_ok_iff {field : Field} {parts parts' : Parts} :
    field.read text parts = .ok (parts', rest) ↔
      ∃ blanks number n, text = blanks ++ (number ++ rest) ∧ IsBlanks blanks ∧
        IsNumber field n number rest ∧ field.Holds n ∧ parts' = field.place n parts := by
  rw [Field.read_trimmed_iff]
  constructor
  · rintro ⟨number, n, split, isNumber, inRange, rfl⟩
    refine ⟨text.takeWhile isBlank, number, n, ?_, fun c => List.mem_takeWhile_imp, isNumber,
      inRange, rfl⟩
    rw [← split]
    exact List.takeWhile_append_dropWhile.symm
  · rintro ⟨blanks, number, n, rfl, areBlank, isNumber, inRange, rfl⟩
    refine ⟨number, n, ?_, isNumber, inRange, rfl⟩
    obtain ⟨first, others, rfl, visible, _⟩ := isNumber.exists_cons
    rw [trimStart, List.dropWhile_append_of_pos areBlank, List.cons_append]
    exact List.dropWhile_cons_of_neg (by simp [visible])

/-! Texts of numbers. -/

/-- Numbers one behind the other, each with blanks before it, and the parts that they make. -/
inductive SpellsFields : List Field → Parts → List Char → Parts → Prop where
  | done {parts : Parts} : SpellsFields [] parts [] parts
  | next {field : Field} {fields : List Field} {parts parts' : Parts} {n : Int}
      {blanks number rest : List Char} :
      IsBlanks blanks → IsNumber field n number rest → field.Holds n →
      SpellsFields fields (field.place n parts) rest parts' →
      SpellsFields (field :: fields) parts (blanks ++ (number ++ rest)) parts'

theorem Pattern.read_numbers_iff {fields : List Field} {parts parts' : Parts} :
    Pattern.read text parts (fields.map .number) = .ok parts' ↔
      SpellsFields fields parts text parts' := by
  induction fields generalizing text parts with
  | nil =>
      constructor
      · intro read
        cases text with
        | nil =>
            cases read
            exact .done
        | cons => cases read
      · intro spells
        cases spells
        rfl
  | cons field fields inductionHypothesis =>
      constructor
      · intro read
        obtain ⟨⟨middle, behind⟩, first, others⟩ := bind_eq_ok_iff.mp read
        obtain ⟨blanks, number, n, rfl, areBlank, isNumber, inRange, rfl⟩ :=
          Field.read_eq_ok_iff.mp first
        exact .next areBlank isNumber inRange (inductionHypothesis.mp others)
      · intro spells
        cases spells with
        | next areBlank isNumber inRange others =>
            refine bind_eq_ok_iff.mpr ⟨(_, _), ?_, inductionHypothesis.mpr others⟩
            exact Field.read_eq_ok_iff.mpr ⟨_, _, _, rfl, areBlank, isNumber, inRange, rfl⟩

/-- The fields of a moment. -/
def momentFields : List Field :=
  [.year, .month, .day, .hour, .minute, .second]

theorem readMoment_compact_iff {moment : Moment} :
    Pattern.compact.readMoment text = .ok moment ↔
      ∃ parts, SpellsFields momentFields {} text parts ∧ parts.moment = .ok moment := by
  have compact : Pattern.compact = momentFields.map .number := rfl
  simp only [Pattern.readMoment, bind_eq_ok_iff, compact, Pattern.read_numbers_iff]

/-! Texts without blanks. -/

/-- A text in which nothing is passed over as a blank. -/
def IsVisible (text : List Char) : Prop :=
  ∀ c ∈ text, isBlank c = false

theorem IsVisible.of_append {front back : List Char} (visible : IsVisible (front ++ back)) :
    IsVisible front ∧ IsVisible back :=
  ⟨fun c membership => visible c (List.mem_append_left back membership),
    fun c membership => visible c (List.mem_append_right front membership)⟩

theorem IsBlanks.eq_nil {blanks : List Char} (areBlank : IsBlanks blanks)
    (visible : IsVisible blanks) : blanks = [] := by
  cases blanks with
  | nil => rfl
  | cons c blanks =>
      cases (areBlank c List.mem_cons_self).symm.trans (visible c List.mem_cons_self)

variable {field next : Field} {fields : List Field} {parts parts' : Parts}

/-- Where no blank stands between two numbers, the first of them has to fill its field. -/
theorem SpellsFields.full (spells : SpellsFields (field :: next :: fields) parts text parts')
    (noYear : next ≠ .year) (visible : IsVisible text) :
    ∃ digits rest, text = digits ++ rest ∧ digits.length = field.width ∧
      (∀ c ∈ digits, Decimal.isDigit c = true) ∧
      SpellsFields (next :: fields) (field.place (Decimal.value digits) parts) rest parts' := by
  cases spells with
  | @next _ _ _ _ _ blanks number rest areBlank isNumber inRange others =>
      obtain ⟨front, behind⟩ := visible.of_append
      obtain rfl := areBlank.eq_nil front
      have goesOn : ¬ EndsDigits rest := by
        cases others with
        | next nextBlank nextNumber =>
            obtain rfl := nextBlank.eq_nil behind.of_append.2.of_append.1
            obtain ⟨first, others, rfl, _, digit⟩ := nextNumber.exists_cons
            intro ends
            cases (digit noYear).symm.trans (ends first rfl)
      cases isNumber with
      | plain run =>
          have full := Option.some.inj (run.ends.resolve_right goesOn)
          exact ⟨number, rest, rfl, full.symm, run.all, others⟩
      | positive run | negative run => exact absurd (run.ends.resolve_right goesOn) nofun

theorem SpellsFields.last (spells : SpellsFields [field] parts text parts') (noYear : field ≠ .year)
    (visible : IsVisible text) :
    text ≠ [] ∧ text.length ≤ 2 ∧ (∀ c ∈ text, Decimal.isDigit c = true) ∧
      parts' = field.place (Decimal.value text) parts := by
  cases spells with
  | next areBlank isNumber inRange others =>
      cases others
      obtain rfl := areBlank.eq_nil visible.of_append.1
      obtain ⟨run, rfl⟩ := isNumber.unsigned noYear
      rw [List.nil_append, List.append_nil]
      exact ⟨run.given, run.fits 2 rfl, run.all, rfl⟩

theorem IsVisible.of_digits {digits : List Char} (all : ∀ c ∈ digits, Decimal.isDigit c = true) :
    IsVisible digits :=
  fun c membership => isBlank_of_isDigit (all c membership)

theorem Parts.moment_eq_ok {parts : Parts} {moment : Moment} (made : parts.moment = .ok moment) :
    parts = moment.parts := by
  obtain ⟨date, isDate, made⟩ := bind_eq_ok_iff.mp made
  unfold Parts.date Date.ofParts? at isDate
  unfold Moment.ofParts? at made
  split at isDate
  case h_1 day found =>
    cases isDate
    split at found
    case isTrue =>
      split at found <;> cases found
      split at made
      case h_1 second timed =>
        cases made
        split at timed <;> cases timed
        rfl
      case h_2 => cases made
    case isFalse => cases found
  case h_2 => cases isDate

theorem length_encode_of_digits {digits : List Char}
    (all : ∀ c ∈ digits, Decimal.isDigit c = true) :
    (Utf8.encode digits).length = digits.length := by
  have ascii : IsAscii digits := by
    intro c membership
    exact Nat.lt_of_le_of_lt (Decimal.toNat_of_isDigit (all c membership)).2 (by decide)
  rw [Utf8.encode_of_isAscii ascii, asciiBytes, List.length_map]

/-- A text of fourteen bytes without blanks that is read as a moment is made of the fourteen digits
of that moment. -/
theorem exists_stamp_of_spells {moment : Moment} (spells : SpellsFields momentFields {} text parts)
    (made : parts.moment = .ok moment) (visible : IsVisible text)
    (long : (Utf8.encode text).length = 14) :
    ∃ stamp : Stamp, stamp.moment = moment ∧ stamp.digits = text := by
  obtain ⟨year, _, rfl, yearWidth, yearDigits, spells⟩ := spells.full (by decide) visible
  have visible := visible.of_append.2
  obtain ⟨month, _, rfl, monthWidth, monthDigits, spells⟩ := spells.full (by decide) visible
  have visible := visible.of_append.2
  obtain ⟨day, _, rfl, dayWidth, dayDigits, spells⟩ := spells.full (by decide) visible
  have visible := visible.of_append.2
  obtain ⟨hour, _, rfl, hourWidth, hourDigits, spells⟩ := spells.full (by decide) visible
  have visible := visible.of_append.2
  obtain ⟨minute, second, rfl, minuteWidth, minuteDigits, spells⟩ := spells.full (by decide) visible
  obtain ⟨_, _, secondDigits, rfl⟩ := spells.last (by decide) visible.of_append.2
  -- Only the seconds could be a single digit, and then a byte would be missing.
  have secondWidth : second.length = 2 := by
    have all : ∀ c ∈ year ++ (month ++ (day ++ (hour ++ (minute ++ second)))),
        Decimal.isDigit c = true := by
      simp only [List.forall_mem_append]
      exact ⟨yearDigits, monthDigits, dayDigits, hourDigits, minuteDigits, secondDigits⟩
    rw [length_encode_of_digits all] at long
    simp only [Field.width] at yearWidth monthWidth dayWidth hourWidth minuteWidth
    simp only [List.length_append] at long
    omega
  have written (digits : List Char) (width : Nat) (positive : 0 < width)
      (full : digits.length = width) (all : ∀ c ∈ digits, Decimal.isDigit c = true) :
      Decimal.padded width (Decimal.value digits) = digits := by
    subst full
    exact Decimal.padded_value (List.length_pos_iff.mp positive) all
  have same := Parts.moment_eq_ok made
  simp only [Field.place, Moment.parts, Parts.mk.injEq, Int.toNat_natCast] at same
  obtain ⟨sameYear, sameMonth, sameDay, sameHour, sameMinute, sameSecond⟩ := same
  have fourDigits := Decimal.value_lt_pow yearDigits
  rw [yearWidth, Field.width] at fourDigits
  refine ⟨⟨moment, by omega⟩, rfl, ?_⟩
  dsimp only [Stamp.digits]
  rw [← sameYear, ← sameMonth, ← sameDay, ← sameHour, ← sameMinute, ← sameSecond,
    Int.toNat_natCast, written year 4 (by decide) yearWidth yearDigits,
    written month 2 (by decide) monthWidth monthDigits,
    written day 2 (by decide) dayWidth dayDigits,
    written hour 2 (by decide) hourWidth hourDigits,
    written minute 2 (by decide) minuteWidth minuteDigits,
    written second 2 (by decide) secondWidth secondDigits]

end CertificateAudit.Calendar
