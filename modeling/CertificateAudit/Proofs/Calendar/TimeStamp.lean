import CertificateAudit.Proofs.Calendar.Text
import CertificateAudit.Proofs.Traversal

/-!
Time stamps of a log listing. All their patterns start with the same day, and nothing they ask for
behind it touches the day; so every pattern that fits a text gives the day at its front
(`frontDay_of_readMoment`), and the order in which patterns are tried does not matter. A written
moment gives its own day, whichever way it is written (`timeStampDate?_own_day`).
-/

namespace CertificateAudit.Calendar

open CertificateAudit.Text

/-! The day at the front. -/

/-- Whether an item asks for a number of the day. -/
def Item.isOfDay : Item → Bool
  | .number .year | .number .month | .number .day => true
  | _ => false

theorem Item.date_of_read {item : Item} {text rest : List Char} {parts parts' : Parts}
    (notOfDay : item.isOfDay = false) (read : item.read text parts = .ok (parts', rest)) :
    parts'.date = parts.date := by
  unfold Item.read at read
  split at read
  case h_1 field =>
    cases field with
    | year => cases notOfDay
    | month => cases notOfDay
    | day => cases notOfDay
    | hour | minute | second =>
        obtain ⟨_, _, put⟩ := bind_eq_ok_iff.mp read
        cases put
        rfl
  case h_2 => cases read
  case h_3 =>
    split at read <;> cases read
    rfl
  case h_4 =>
    cases read
    rfl
  case h_5 =>
    obtain ⟨_, _, put⟩ := bind_eq_ok_iff.mp read
    cases put
    rfl
  case h_6 =>
    cases read
    rfl

namespace Pattern

variable {text rest : List Char} {parts parts' : Parts} {items : Pattern}

theorem date_of_read (notOfDay : ∀ item ∈ items, item.isOfDay = false)
    (read : Pattern.read text parts items = .ok parts') : parts'.date = parts.date := by
  induction items generalizing text parts with
  | nil =>
      unfold Pattern.read at read
      split at read <;> cases read
      rfl
  | cons item items inductionHypothesis =>
      obtain ⟨⟨middle, behind⟩, first, read⟩ := bind_eq_ok_iff.mp read
      have others := inductionHypothesis
        (fun other membership => notOfDay other (List.mem_cons_of_mem item membership)) read
      exact others.trans (Item.date_of_read (notOfDay item List.mem_cons_self) first)

/-- Read the items, which need not take the whole text. -/
def readFront (text : List Char) (parts : Parts) :
    Pattern → Except PatternError (Parts × List Char)
  | [] => .ok (parts, text)
  | item :: items => do
      let (parts, rest) ← item.read text parts
      readFront rest parts items

theorem read_append (front : Pattern) :
    Pattern.read text parts (front ++ items) =
      readFront text parts front >>= fun found => Pattern.read found.2 found.1 items := by
  induction front generalizing text parts with
  | nil => rfl
  | cons item front inductionHypothesis =>
      simp only [List.cons_append, Pattern.read, readFront, inductionHypothesis]
      cases item.read text parts <;> rfl

end Pattern

theorem Moment.date_of_ofParts? {date : Date} {hour minute second : Nat} {moment : Moment}
    (made : Moment.ofParts? date hour minute second = some moment) : moment.date = date := by
  unfold Moment.ofParts? at made
  split at made <;> cases made
  rfl

theorem Parts.date_of_moment {parts : Parts} {moment : Moment}
    (made : parts.moment = .ok moment) : parts.date = .ok moment.date := by
  obtain ⟨date, isDate, made⟩ := bind_eq_ok_iff.mp made
  split at made
  case h_1 timed =>
    cases made
    rw [isDate, Moment.date_of_ofParts? timed]
  case h_2 => cases made

/-- The day at the front of a text. -/
def frontDay (text : List Char) : Except PatternError Date := do
  (← Pattern.day.readFront text {}).1.date

/-- A pattern that starts with the day and does not touch it any more gives the day at the front. -/
theorem frontDay_of_readMoment {items : Pattern} {text : List Char} {moment : Moment}
    (notOfDay : ∀ item ∈ items, item.isOfDay = false)
    (fits : Pattern.readMoment (Pattern.day ++ items) text = .ok moment) :
    frontDay text = .ok moment.date := by
  obtain ⟨parts, read, made⟩ := bind_eq_ok_iff.mp fits
  rw [Pattern.read_append] at read
  obtain ⟨⟨dayParts, rest⟩, front, read⟩ := bind_eq_ok_iff.mp read
  refine bind_eq_ok_iff.mpr ⟨_, front, ?_⟩
  rw [← Pattern.date_of_read notOfDay read]
  exact Parts.date_of_moment made

/-! The patterns of a listing. -/

theorem exists_day_append {pattern : Pattern} (known : pattern ∈ timeStampPatterns) :
    ∃ items, pattern = Pattern.day ++ items ∧ ∀ item ∈ items, item.isOfDay = false := by
  simp only [timeStampPatterns, List.mem_cons, List.not_mem_nil, or_false] at known
  rcases known with rfl | rfl | rfl
  · exact ⟨.literal 'T' :: Pattern.timeOfDay, rfl, by decide⟩
  · exact ⟨.blanks :: Pattern.timeOfDay, rfl, by decide⟩
  · exact ⟨.literal 'T' :: Pattern.timeOfDay ++ [.fraction], rfl, by decide⟩

theorem frontDay_of_known {pattern : Pattern} {text : List Char} {moment : Moment}
    (known : pattern ∈ timeStampPatterns) (fits : pattern.readMoment text = .ok moment) :
    frontDay text = .ok moment.date := by
  obtain ⟨items, rfl, notOfDay⟩ := exists_day_append known
  exact frontDay_of_readMoment notOfDay fits

/-- Two patterns that fit a text give the same day. -/
theorem date_eq_of_known {pattern other : Pattern} {text : List Char} {moment moment' : Moment}
    (known : pattern ∈ timeStampPatterns) (otherKnown : other ∈ timeStampPatterns)
    (fits : pattern.readMoment text = .ok moment)
    (otherFits : other.readMoment text = .ok moment') :
    moment.date = moment'.date :=
  Except.ok.inj ((frontDay_of_known known fits).symm.trans (frontDay_of_known otherKnown otherFits))

/-- The day of a text by the first of the patterns that fits. -/
def firstDate? (patterns : List Pattern) (text : String) : Option Date :=
  patterns.findSome? fun pattern =>
    match pattern.readMoment text.toList with
    | .ok moment => some moment.date
    | .error _ => none

/-- Whichever of the patterns fits, the day is the one that it gives. -/
theorem firstDate?_eq_some_iff {patterns : List Pattern} {text : String} {date : Date}
    (known : ∀ pattern ∈ patterns, pattern ∈ timeStampPatterns) :
    firstDate? patterns text = some date ↔
      ∃ pattern ∈ patterns, ∃ moment,
        pattern.readMoment text.toList = .ok moment ∧ moment.date = date := by
  constructor
  · intro found
    obtain ⟨pattern, membership, fits⟩ := List.exists_of_findSome?_eq_some found
    split at fits
    case h_1 moment read => exact ⟨pattern, membership, moment, read, Option.some.inj fits⟩
    case h_2 => cases fits
  · rintro ⟨pattern, membership, moment, fits, rfl⟩
    have someFits : (firstDate? patterns text).isSome = true := by
      refine List.findSome?_isSome_iff.mpr ⟨pattern, membership, ?_⟩
      rw [fits]
      rfl
    obtain ⟨date, found⟩ := Option.isSome_iff_exists.mp someFits
    obtain ⟨other, otherMembership, first⟩ := List.exists_of_findSome?_eq_some found
    split at first
    case h_1 moment' read =>
      rw [found, ← Option.some.inj first]
      exact congrArg some
        (date_eq_of_known (known other otherMembership) (known pattern membership) read fits)
    case h_2 => cases first

theorem timeStampDate?_of_fits {pattern : Pattern} {text : String} {moment : Moment}
    (known : pattern ∈ timeStampPatterns) (fits : pattern.readMoment text.toList = .ok moment) :
    timeStampDate? text = some moment.date :=
  (firstDate?_eq_some_iff fun _ membership => membership).mpr ⟨pattern, known, moment, fits, rfl⟩

/-! Written moments. -/

namespace Moment

/-- Hour, minute and second with colons between. -/
def clock (moment : Moment) : List Char :=
  Decimal.padded 2 moment.hour ++ ':' :: Decimal.padded 2 moment.minute ++
    ':' :: Decimal.padded 2 moment.second

/-- The written moment with a space between day and time. -/
def spacedText (moment : Moment) : String :=
  String.ofList (moment.date.chars ++ ' ' :: moment.clock)

theorem toList_text (moment : Moment) :
    moment.text.toList = moment.date.chars ++ 'T' :: moment.clock := by
  simp [text, clock]

theorem read_clock (moment : Moment) (rest : List Char) (items : Pattern) :
    Pattern.read (moment.clock ++ rest)
      { year := moment.date.year, month := moment.date.month, day := moment.date.day }
      (Pattern.timeOfDay ++ items) = Pattern.read rest moment.parts items := by
  obtain ⟨hour, minute, second⟩ := moment.timeOfDay
  simp only [clock, List.append_assoc, List.cons_append]
  refine (Pattern.read_padded (show Field.hour.Allows _ from hour) _ _ _).trans ?_
  refine (Pattern.read_literal _ _ _ _).trans ?_
  refine (Pattern.read_padded (show Field.minute.Allows _ from minute) _ _ _).trans ?_
  refine (Pattern.read_literal _ _ _ _).trans ?_
  exact Pattern.read_padded (show Field.second.Allows _ from second) _ _ _

theorem read_whole_clock (moment : Moment) :
    Pattern.read moment.clock
      { year := moment.date.year, month := moment.date.month, day := moment.date.day }
      Pattern.timeOfDay = .ok moment.parts := by
  have read := moment.read_clock [] []
  rw [List.append_nil, List.append_nil] at read
  exact read

theorem trimStart_clock (moment : Moment) : trimStart (' ' :: moment.clock) = moment.clock := by
  obtain ⟨hour, _, _⟩ := moment.timeOfDay
  have blank : isBlank ' ' = true := by decide
  have hours := @trimStart_padded 2 moment.hour (by decide) (by omega)
  simp only [clock, List.append_assoc, List.cons_append]
  rw [trimStart, List.dropWhile_cons_of_pos blank]
  exact hours _

theorem readMoment_of_read {moment : Moment} {pattern : Pattern} {text : List Char}
    (read : pattern.read text {} = .ok moment.parts) : pattern.readMoment text = .ok moment :=
  bind_eq_ok_iff.mpr ⟨_, read, moment.moment_parts⟩

theorem dayAndTime_fits (moment : Moment) :
    Pattern.dayAndTime.readMoment moment.text.toList = .ok moment := by
  refine readMoment_of_read ?_
  rw [toList_text, Pattern.dayAndTime, read_day_append, Pattern.read_literal, read_whole_clock]

theorem dayBlankTime_fits (moment : Moment) :
    Pattern.dayBlankTime.readMoment moment.spacedText.toList = .ok moment := by
  have blanks (parts : Parts) :
      Pattern.read (' ' :: moment.clock) parts (.blanks :: Pattern.timeOfDay) =
        Pattern.read moment.clock parts Pattern.timeOfDay := by
    simp only [Pattern.read, Item.read, trimStart_clock]
    rfl
  refine readMoment_of_read ?_
  rw [spacedText, String.toList_ofList, Pattern.dayBlankTime, read_day_append, blanks,
    read_whole_clock]

/-- However many digits there are, at most nine are read as a number, which is not too large. -/
theorem readDigits_nine {digits : List Char} (given : digits ≠ [])
    (all : ∀ c ∈ digits, Decimal.isDigit c = true) :
    readDigits (some 9) digits =
      .ok (Decimal.value (digits.take 9), digits.drop (digits.take 9).length) := by
  have allTaken : ∀ c ∈ digits.take 9, Decimal.isDigit c = true :=
    fun c membership => all c (List.mem_of_mem_take membership)
  have front : (digits.take 9).takeWhile Decimal.isDigit = digits.take 9 :=
    List.takeWhile_eq_self_iff.mpr allTaken
  have small : Decimal.value (digits.take 9) ≤ 9223372036854775807 :=
    calc Decimal.value (digits.take 9)
      _ ≤ 10 ^ (digits.take 9).length := Nat.le_of_lt (Decimal.value_lt_pow allTaken)
      _ ≤ 10 ^ 9 := Nat.pow_le_pow_right (by decide) (List.length_take_le 9 digits)
      _ ≤ 9223372036854775807 := by decide
  simp only [readDigits, front]
  obtain ⟨first, others, rfl⟩ := List.exists_cons_of_ne_nil given
  exact if_pos small

theorem read_fraction {digits : List Char} (given : digits ≠ [])
    (all : ∀ c ∈ digits, Decimal.isDigit c = true) (parts : Parts) :
    Pattern.read ('.' :: digits) parts [.fraction] = .ok parts := by
  simp only [Pattern.read, Item.read, readDigits_nine given all,
    List.dropWhile_eq_nil_iff.mpr all]
  rfl

theorem dayAndTimeFraction_fits {digits : List Char} (given : digits ≠ [])
    (all : ∀ c ∈ digits, Decimal.isDigit c = true) (moment : Moment) :
    Pattern.dayAndTimeFraction.readMoment
      (moment.text ++ "." ++ String.ofList digits).toList = .ok moment := by
  refine readMoment_of_read ?_
  have written : (moment.text ++ "." ++ String.ofList digits).toList =
      moment.date.chars ++ 'T' :: (moment.clock ++ '.' :: digits) := by
    simp [toList_text]
  rw [written, Pattern.dayAndTimeFraction, Pattern.dayAndTime, List.append_assoc,
    read_day_append, List.cons_append, Pattern.read_literal, read_clock, read_fraction given all]

end Moment

/-- A moment gives its own day, with the letter T or a space between day and time, and with any
number of digits of a fraction of a second. Two patterns that fit one text agree on its day, so
trying them in another order gives the same answer for every text. -/
theorem timeStampDate?_own_day (moment : Moment) {digits : List Char} (given : digits ≠ [])
    (all : ∀ c ∈ digits, Decimal.isDigit c = true) :
    (timeStampDate? moment.text = some moment.date ∧
      timeStampDate? moment.spacedText = some moment.date ∧
      timeStampDate? (moment.text ++ "." ++ String.ofList digits) = some moment.date) ∧
    (∀ text, ∀ pattern ∈ timeStampPatterns, ∀ other ∈ timeStampPatterns, ∀ first second,
      pattern.readMoment text = .ok first → other.readMoment text = .ok second →
      first.date = second.date) ∧
    ∀ text patterns, List.Perm patterns timeStampPatterns →
      firstDate? patterns text = timeStampDate? text := by
  refine ⟨⟨?_, ?_, ?_⟩, ?_, ?_⟩
  · exact timeStampDate?_of_fits (by decide) moment.dayAndTime_fits
  · exact timeStampDate?_of_fits (by decide) moment.dayBlankTime_fits
  · exact timeStampDate?_of_fits (by decide) (moment.dayAndTimeFraction_fits given all)
  · intro text pattern known other otherKnown first second fits otherFits
    exact date_eq_of_known known otherKnown fits otherFits
  · intro text patterns order
    have known : ∀ pattern ∈ patterns, pattern ∈ timeStampPatterns :=
      fun _ membership => order.subset membership
    apply Option.ext
    intro date
    change _ ↔ firstDate? timeStampPatterns text = some date
    rw [firstDate?_eq_some_iff known, firstDate?_eq_some_iff fun _ membership => membership]
    simp only [order.mem_iff]

/-- The last second of a leap day, which is a leap second. -/
def leapSecond : Moment :=
  ((Date.ofParts? 2024 2 29).bind fun date => Moment.ofParts? date 23 59 60).get rfl

theorem timeStampDate?_own_day_leapSecond :
    ("0123456789".toList ≠ [] ∧ ∀ c ∈ "0123456789".toList, Decimal.isDigit c = true) ∧
      timeStampDate? "2024-02-29 23:59:60" = some leapSecond.date ∧
      timeStampDate? "2024-02-29T23:59:60.0123456789" = some leapSecond.date := by
  have given : "0123456789".toList ≠ [] := by decide
  have all : ∀ c ∈ "0123456789".toList, Decimal.isDigit c = true :=
    List.all_eq_true.mp (by decide)
  obtain ⟨_, spaced, fraction⟩ := (timeStampDate?_own_day leapSecond given all).1
  have spacedText : leapSecond.spacedText = "2024-02-29 23:59:60" := by
    decide +kernel
  have fractionText : leapSecond.text ++ "." ++ String.ofList "0123456789".toList =
      "2024-02-29T23:59:60.0123456789" := by
    decide +kernel
  rw [spacedText] at spaced
  rw [fractionText] at fraction
  exact ⟨⟨given, all⟩, spaced, fraction⟩

end CertificateAudit.Calendar
