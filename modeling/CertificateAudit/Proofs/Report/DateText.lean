import CertificateAudit.Proofs.Report.Reading
import CertificateAudit.Proofs.Store.Path

/-!
The text of a date. A date can be written item by item, by the pattern that reads it, or in the
standard form, in which the four digits of a usual year are two pairs. Both give the same text for
every year, and it is read back (`dates_written_alike`): so the directory of the results, the
summary, the verdicts and the JSON form of a report all name a date in one way.
-/

namespace CertificateAudit

open CertificateAudit.Calendar CertificateAudit.Text

namespace Calendar

def pair (n : Nat) : List Char :=
  [Nat.digitChar (n / 10), Nat.digitChar (n % 10)]

/-- A year with its sign and at least four digits. -/
def signedYear (year : Int) : List Char :=
  (if year < 0 then '-' else '+') :: Decimal.padded 4 year.natAbs

/-- What an item of a pattern writes of a date, which has no time of day. -/
def Item.write? (date : Date) : Item → Option (List Char)
  | .number .year =>
      if 1000 ≤ date.year ∧ date.year ≤ 9999 then
        some (pair (date.year.toNat / 100) ++ pair (date.year.toNat % 100))
      else if 0 ≤ date.year ∧ date.year ≤ 9999 then some (Decimal.padded 4 date.year.toNat)
      else some (signedYear date.year)
  | .number .month => some (pair date.month)
  | .number .day => some (pair date.day)
  | .literal c => some [c]
  | .blanks => some [' ']
  | .number .hour | .number .minute | .number .second | .fraction => none

def Pattern.write? (date : Date) : Pattern → Option (List Char)
  | [] => some []
  | item :: items => do pure ((← item.write? date) ++ (← Pattern.write? date items))

/-- The standard form: outside the years 0 to 9999 the year has a sign. -/
def Date.standardText (date : Date) : String :=
  let year :=
    if 0 ≤ date.year ∧ date.year ≤ 9999 then
      pair (date.year.toNat / 100) ++ pair (date.year.toNat % 100)
    else signedYear date.year
  String.ofList (year ++ '-' :: pair date.month ++ '-' :: pair date.day)

theorem pairs_eq_padded {n : Nat} (short : n < 10000) :
    pair (n / 100) ++ pair (n % 100) = Decimal.padded 4 n := by
  have front : n / 100 < 100 := by omega
  rw [Decimal.padded_add_two (by decide), Decimal.padded_two front,
    Decimal.padded_two (Nat.mod_lt n (by decide))]
  rfl

theorem Date.pair_month (date : Date) : pair date.month = Decimal.padded 2 date.month :=
  (Decimal.padded_two (by have := date.month_day_le; omega)).symm

theorem Date.pair_day (date : Date) : pair date.day = Decimal.padded 2 date.day :=
  (Decimal.padded_two (by have := date.month_day_le; omega)).symm

theorem Date.write?_year (date : Date) :
    (Item.number .year).write? date = some (yearText date.year) := by
  unfold Item.write? yearText
  dsimp only
  split
  case isTrue usual =>
    rw [pairs_eq_padded (by omega), if_pos ⟨by omega, usual.2⟩]
  case isFalse => split <;> rfl

theorem Date.write?_day (date : Date) : Pattern.day.write? date = some date.chars := by
  have month : (Item.number .month).write? date = some (Decimal.padded 2 date.month) :=
    congrArg some date.pair_month
  have day : (Item.number .day).write? date = some (Decimal.padded 2 date.day) :=
    congrArg some date.pair_day
  have dash : (Item.literal '-').write? date = some ['-'] := rfl
  simp only [Pattern.day, Pattern.write?, date.write?_year, month, day, dash, chars,
    Option.pure_def, Option.bind_eq_bind, Option.bind_some, List.append_nil, List.append_assoc,
    List.cons_append, List.nil_append]

theorem Date.standardText_eq (date : Date) : date.standardText = date.text := by
  have year : (if 0 ≤ date.year ∧ date.year ≤ 9999 then
      pair (date.year.toNat / 100) ++ pair (date.year.toNat % 100)
      else signedYear date.year) = yearText date.year := by
    unfold yearText
    split
    case isTrue usual => exact pairs_eq_padded (by omega)
    case isFalse => rfl
  rw [standardText, text, chars, year, date.pair_month, date.pair_day]

theorem read_again (text : String) :
    (readAuditDate text >>= fun date => readAuditDate date.text) = readAuditDate text := by
  cases readAuditDate text with
  | error error => rfl
  | ok date => exact readAuditDate_text date

end Calendar

/-! The dates of a report. -/

/-- The members of the JSON form that hold dates. -/
def dateNames : List String :=
  ["date", "not_before", "not_after", "revoked_on"]

namespace Json

mutual

/-- The texts of all members with the name of a date, at any depth. -/
def datesIn : Json → List String
  | .array items => datesInItems items
  | .object members => datesInMembers members
  | _ => []

def datesInItems : List Json → List String
  | [] => []
  | item :: items => datesIn item ++ datesInItems items

def datesInMembers : List (Option String × Json) → List String
  | [] => []
  | (name, value) :: members =>
      (match name with
        | some name => if name ∈ dateNames then value.text?.toList else datesIn value
        | none => datesIn value) ++ datesInMembers members

end

theorem datesInItems_eq (items : List Json) : datesInItems items = items.flatMap datesIn := by
  induction items with
  | nil => rfl
  | cons item items inductionHypothesis =>
      rw [datesInItems, inductionHypothesis, List.flatMap_cons]

end Json

def Verdict.dates : Verdict → List Date
  | .revokedBefore revokedOn _ | .revokedLater revokedOn _ => [revokedOn]
  | .good | .unknown _ => []

def Outcome.dates : Outcome → List Date
  | .accepted record verdict | .rejected record verdict =>
      record.notBefore :: record.notAfter :: verdict.dates
  | .skipped candidate _ => [candidate.notBefore, candidate.notAfter]

/-- All dates of a report in the order in which they are written. -/
def Report.dates (report : Report) : List Date :=
  report.date :: report.outcomes.flatMap Outcome.dates

section

open Json

@[simp]
theorem Json.datesIn_ofText (text : String) : (ofText text).datesIn = [] :=
  rfl

@[simp]
theorem Json.datesIn_ofText? (text : Option String) : (ofText? text).datesIn = [] := by
  cases text <;> rfl

@[simp]
theorem Json.datesIn_ofInt (n : Int) : (ofInt n).datesIn = [] :=
  rfl

theorem Verdict.datesIn_toJson (verdict : Verdict) :
    verdict.toJson.datesIn = verdict.dates.map Date.text := by
  cases verdict <;>
    simp [toJson, revocationMembers, datesIn, datesInMembers, dateNames, dates]

theorem Outcome.datesIn_toJson (outcome : Outcome) :
    outcome.toJson.datesIn = outcome.dates.map Date.text := by
  cases outcome <;>
    simp [toJson, Record.members, Candidate.members, datesIn, datesInMembers, dateNames, dates,
      Verdict.datesIn_toJson]

theorem Report.datesIn_toJson (report : Report) (texts : List String) :
    (report.toJson texts).datesIn = report.dates.map Date.text := by
  simp [toJson, datesIn, datesInMembers, datesInItems_eq, dateNames, dates, List.flatMap_map,
    List.map_flatMap, Outcome.datesIn_toJson]

theorem Report.datesIn_of_pretty? {report : Report} {text : String}
    (printed : report.pretty? = some text) :
    (read? text).map datesIn = some (report.dates.map Date.text) := by
  obtain ⟨texts, _, rfl⟩ := pretty?_eq_some_iff.mp printed
  rw [read?_print (report.isTidy_toJson texts).1, Option.map_some, report.datesIn_toJson]

/-- No character of a date is escaped. -/
theorem Json.quote_chars (date : Date) : quote date.chars = '"' :: date.chars ++ ['"'] := by
  have digits : ∀ n ≤ '9'.toNat, '0'.toNat ≤ n → escape (Char.ofNat n) = [Char.ofNat n] := by
    decide
  have plain : ∀ c ∈ date.chars, escape c = [c] := by
    intro c membership
    by_cases dash : c = '-'
    · rw [dash]
      rfl
    by_cases plus : c = '+'
    · rw [plus]
      rfl
    cases digit : Decimal.isDigit c with
    | false => exact absurd membership (Store.not_mem_chars digit dash plus date)
    | true =>
        obtain ⟨lowest, highest⟩ := Decimal.toNat_of_isDigit digit
        have same := digits c.toNat highest lowest
        rwa [Char.ofNat_toNat] at same
  have kept : date.chars.flatMap escape = date.chars.flatMap fun c => [c] :=
    List.flatMap_congr plain
  rw [quote, kept, List.flatMap_singleton']

end

/-- A date has one text: written item by item as in the directory of the results and the summary,
in the standard form as in verdicts, and between quotes in the JSON form of a report, where no
character of it is escaped. Reading the text gives the date. So a text that is read as a date may
be replaced by the text of that date: it is read as the same date and leads to the same
directory. -/
theorem dates_written_alike :
    (∀ date : Date, (Pattern.day.write? date).map String.ofList = some date.standardText ∧
      readAuditDate date.standardText = .ok date ∧
      Json.quote date.standardText.toList = '"' :: date.standardText.toList ++ ['"']) ∧
    (∀ domain date, (Pattern.day.write? date).map (fun day => domain ++ "_" ++ String.ofList day) =
      some (Store.label domain date)) ∧
    (∀ report : Report, (Pattern.day.write? report.date).map (fun day =>
        "Found and saved " ++ toString report.saved.length ++ " active certificates for " ++
          report.domain ++ " on " ++ String.ofList day) = some report.summary) ∧
    (∀ date, (Verdict.revokedBefore date none).text = "Revoked on " ++ date.standardText ∧
      (Verdict.revokedLater date none).text = "Revoked later, on " ++ date.standardText ∧
      ∀ reason,
        (Verdict.revokedBefore date (some reason)).text =
          "Revoked on " ++ (date.standardText ++ " (" ++ reason ++ ")") ∧
        (Verdict.revokedLater date (some reason)).text =
          "Revoked later, on " ++ (date.standardText ++ " (" ++ reason ++ ")")) ∧
    (∀ report : Report, (∀ path ∈ report.saved, path.IsText) →
      ∃ text, report.pretty? = some text ∧
        (Json.read? text).map Json.datesIn = some (report.dates.map Date.standardText)) ∧
    ∀ text, (readAuditDate text >>= fun date => readAuditDate date.standardText) =
        readAuditDate text ∧
      ∀ base domain, (readAuditDate text >>= fun date => readAuditDate date.standardText).map
          (Store.directoryFor base domain) =
        (readAuditDate text).map (Store.directoryFor base domain) := by
  have written (date : Date) : Pattern.day.write? date = some date.chars := date.write?_day
  have standard : Date.standardText = Date.text := funext Date.standardText_eq
  simp only [standard, written, Option.map_some]
  refine ⟨?_, ?_, ?_, ?_, ?_, ?_⟩
  · intro date
    refine ⟨rfl, readAuditDate_text date, ?_⟩
    rw [Date.text, String.toList_ofList]
    exact Json.quote_chars date
  · exact fun domain date => rfl
  · exact fun report => rfl
  · exact fun date => ⟨rfl, rfl, fun reason => ⟨rfl, rfl⟩⟩
  · intro report spelled
    obtain ⟨text, printed⟩ := report.exists_pretty?_iff.mpr spelled
    exact ⟨text, printed, Report.datesIn_of_pretty? printed⟩
  · intro text
    refine ⟨read_again text, ?_⟩
    intro base domain
    rw [read_again]

end CertificateAudit
