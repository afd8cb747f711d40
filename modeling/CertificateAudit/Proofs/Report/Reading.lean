import CertificateAudit.Proofs.Calendar.Text
import CertificateAudit.Proofs.Json.Printing
import CertificateAudit.Proofs.Text.RawText
import CertificateAudit.Proofs.Traversal
import CertificateAudit.Report
import Mathlib.Data.List.Nodup
import Mathlib.Data.Option.Basic

/-!
Reading a report back from its JSON form. Each value is read from its members by name, so the
order of the members and members of other names do not matter. Everything is read back but the
bytes of the certificates, which the JSON form leaves to their text (`Report.pretty_faithful`). A
report with a path that spells no text has no JSON form.
-/

namespace CertificateAudit

open CertificateAudit.Calendar CertificateAudit.Text

namespace Json

/-- The value of the first member of that name. -/
def member? (name : String) : Json → Option Json
  | .object members => members.lookup (some name)
  | _ => none

def text? : Json → Option String
  | .string text => text
  | _ => none

def path? (value : Json) : Option RawText :=
  value.text?.map RawText.ofText

/-- A text, or null where there is none. -/
def optionalText? : Json → Option (Option String)
  | .null => some none
  | value => value.text?.map some

/-- The value of a number without fraction and exponent. -/
def int? : Json → Option Int
  | .number ('-' :: digits) =>
      if digits.all Decimal.isDigit then some (-(Decimal.value digits : Int)) else none
  | .number digits =>
      if digits.all Decimal.isDigit then some (Decimal.value digits : Int) else none
  | _ => none

def count? (value : Json) : Option Nat :=
  value.int?.bind Int.toNat?

def date? (value : Json) : Option Date :=
  value.text?.bind fun text => (readAuditDate text).toOption

def list? {α : Type} (read : Json → Option α) : Json → Option (List α)
  | .array items => items.mapM read
  | _ => none

@[simp]
theorem text?_ofText (text : String) : (ofText text).text? = some text :=
  rfl

theorem path?_ofText (text : String) : (ofText text).path? = some (RawText.ofText text) :=
  rfl

@[simp]
theorem optionalText?_ofText? (text : Option String) :
    (ofText? text).optionalText? = some text := by
  cases text <;> rfl

theorem all_isDigit_toDigits (n : Nat) : (Nat.toDigits 10 n).all Decimal.isDigit = true :=
  List.all_eq_true.mpr (isWhole_toDigits n).1.2

theorem value_toDigits (n : Nat) : Decimal.value (Nat.toDigits 10 n) = n := by
  rw [Decimal.value_eq_ofDigitChars, Nat.ofDigitChars_ten_toDigits]

@[simp]
theorem int?_ofInt (n : Int) : (ofInt n).int? = some n := by
  cases n with
  | ofNat n =>
      obtain ⟨first, others, spelled, digit⟩ := exists_cons_of_isWhole (isWhole_toDigits n)
      have unsigned : first ≠ '-' := by
        rintro rfl
        cases digit
      have digits := all_isDigit_toDigits n
      have value := value_toDigits n
      rw [ofInt, toList_toString_ofNat]
      rw [spelled] at digits value ⊢
      unfold int?
      split
      next same => exact absurd (List.cons.inj (Json.number.inj same)).1 unsigned
      next same =>
        cases same
        rw [if_pos digits, value]
        rfl
      next other => exact absurd rfl (other _)
  | negSucc n =>
      rw [ofInt, toList_toString_negSucc]
      simp only [int?, all_isDigit_toDigits, if_true, value_toDigits]
      rfl

@[simp]
theorem count?_ofInt (n : Nat) : (ofInt n).count? = some n := by
  rw [count?, int?_ofInt]
  rfl

@[simp]
theorem date?_ofText (date : Date) : (ofText date.text).date? = some date := by
  rw [date?, text?_ofText, Option.bind_some, readAuditDate_text]
  rfl

theorem list?_map {α β : Type} {read : Json → Option β} {write : α → Json} {kept : α → β}
    (reads : ∀ value, read (write value) = some (kept value)) (values : List α) :
    (array (values.map write)).list? read = some (values.map kept) := by
  rw [list?]
  induction values with
  | nil => rfl
  | cons value values inductionHypothesis =>
      simp only [List.map_cons, List.mapM_cons, reads, inductionHypothesis]
      rfl

end Json

namespace Verdict

def ofJson? (value : Json) : Option Verdict := do
  match ← (← value.member? "verdict").text? with
  | "good" => pure .good
  | "revoked_before_date" =>
      pure (.revokedBefore (← (← value.member? "revoked_on").date?)
        (← (← value.member? "reason").optionalText?))
  | "revoked_after_or_on_date" =>
      pure (.revokedLater (← (← value.member? "revoked_on").date?)
        (← (← value.member? "reason").optionalText?))
  | "unknown" => pure (.unknown (← (← value.member? "reason").text?))
  | _ => none

theorem ofJson?_toJson (verdict : Verdict) : ofJson? verdict.toJson = some verdict := by
  cases verdict <;> simp [ofJson?, toJson, Json.member?, List.lookup_cons, revocationMembers]

end Verdict

def Record.withoutDer (record : Record) : Record :=
  { record with der := [] }

/-- The record whose members are among those of the object. -/
def Record.ofJson? (value : Json) : Option Record := do
  pure {
    id := ← (← value.member? "id").int?
    notBefore := ← (← value.member? "not_before").date?
    notAfter := ← (← value.member? "not_after").date?
    subject := ← (← value.member? "subject").text?
    pem := ← (← value.member? "pem").text?
    der := [] }

def Candidate.ofJson? (value : Json) : Option Candidate := do
  pure {
    id := ← (← value.member? "id").int?
    notBefore := ← (← value.member? "not_before").date?
    notAfter := ← (← value.member? "not_after").date?
    commonName := ← (← value.member? "common_name").optionalText?
    issuerName := ← (← value.member? "issuer_name").optionalText?
    serialNumber := ← (← value.member? "serial_number").optionalText? }

namespace Outcome

def withoutDer : Outcome → Outcome
  | .accepted record verdict => .accepted record.withoutDer verdict
  | .rejected record verdict => .rejected record.withoutDer verdict
  | .skipped candidate reason => .skipped candidate reason

def ofJson? (value : Json) : Option Outcome := do
  match ← (← value.member? "outcome").text? with
  | "accepted" =>
      pure (.accepted (← Record.ofJson? value) (← Verdict.ofJson? (← value.member? "verdict")))
  | "rejected" =>
      pure (.rejected (← Record.ofJson? value) (← Verdict.ofJson? (← value.member? "verdict")))
  | "skipped" =>
      pure (.skipped (← Candidate.ofJson? value) (← (← value.member? "reason").text?))
  | _ => none

theorem ofJson?_toJson (outcome : Outcome) : ofJson? outcome.toJson = some outcome.withoutDer := by
  cases outcome <;>
    simp [ofJson?, toJson, Json.member?, List.lookup_cons, Record.members, Candidate.members,
      Record.ofJson?, Candidate.ofJson?, Verdict.ofJson?_toJson, withoutDer, Record.withoutDer]

/-- The bytes of the certificate do not show in the JSON form. -/
theorem toJson_withoutDer (outcome : Outcome) : outcome.withoutDer.toJson = outcome.toJson := by
  cases outcome <;> rfl

end Outcome

namespace Report

def withoutDer (report : Report) : Report :=
  { report with outcomes := report.outcomes.map Outcome.withoutDer }

def ofJson? (value : Json) : Option Report := do
  pure {
    domain := ← (← value.member? "domain").text?
    date := ← (← value.member? "date").date?
    totalCandidates := ← (← value.member? "total_candidates").count?
    inWindow := ← (← value.member? "in_window").count?
    outcomes := ← (← value.member? "outcomes").list? Outcome.ofJson?
    saved := ← (← value.member? "saved").list? Json.path? }

theorem ofJson?_toJson {report : Report} {texts : List String}
    (spelled : report.saved = texts.map RawText.ofText) :
    ofJson? (report.toJson texts) = some report.withoutDer := by
  have saved := Json.list?_map Json.path?_ofText texts
  rw [← spelled] at saved
  simp [ofJson?, toJson, Json.member?, List.lookup_cons, Json.list?_map Outcome.ofJson?_toJson,
    saved, withoutDer]

end Report

/-! What is written for a report is well formed. -/

namespace Json

/-- The value can be printed, and none of its objects has two members of one name. -/
def IsTidy (value : Json) : Prop :=
  value.IsPrintable ∧ value.HasDistinctKeys

@[simp]
theorem isTidy_ofText (text : String) : (ofText text).IsTidy :=
  ⟨.string rfl, .string trivial⟩

@[simp]
theorem isTidy_ofText? (text : Option String) : (ofText? text).IsTidy := by
  cases text with
  | none => exact ⟨.null trivial, .null trivial⟩
  | some text => exact isTidy_ofText text

@[simp]
theorem isTidy_ofInt (n : Int) : (ofInt n).IsTidy :=
  ⟨.number (isNumber_toString n), .number trivial⟩

theorem isTidy_array {α : Type} {write : α → Json} (tidy : ∀ value, (write value).IsTidy)
    (values : List α) : (array (values.map write)).IsTidy := by
  refine ⟨.array trivial ?_, .array trivial ?_⟩
  · intro item membership
    obtain ⟨value, _, rfl⟩ := List.mem_map.mp membership
    exact (tidy value).1
  · intro item membership
    obtain ⟨value, _, rfl⟩ := List.mem_map.mp membership
    exact (tidy value).2

theorem isTidy_object {members : List (Option String × Json)} (names : List String)
    (named : members.map Prod.fst = names.map some) (distinct : names.Nodup)
    (each : ∀ member ∈ members, member.2.IsTidy) : (object members).IsTidy := by
  refine ⟨.object ?_ fun member membership => (each member membership).1,
    .object ?_ fun member membership => (each member membership).2⟩
  · intro member membership
    have key : member.1 ∈ names.map some := by
      rw [← named]
      exact List.mem_map_of_mem membership
    obtain ⟨name, _, same⟩ := List.mem_map.mp key
    rw [← same]
    rfl
  · show (members.map Prod.fst).Nodup
    rw [named]
    exact distinct.map (Option.some_injective String)

end Json

theorem Verdict.isTidy_toJson (verdict : Verdict) : verdict.toJson.IsTidy := by
  cases verdict with
  | good => exact Json.isTidy_object ["verdict"] rfl (by decide) (by simp)
  | revokedBefore revokedOn reason | revokedLater revokedOn reason =>
      exact Json.isTidy_object ["verdict", "revoked_on", "reason"] rfl (by decide)
        (by simp [revocationMembers])
  | unknown reason => exact Json.isTidy_object ["verdict", "reason"] rfl (by decide) (by simp)

/-- The members of a record or a candidate stand in one object with those of the outcome. -/
theorem Outcome.isTidy_toJson (outcome : Outcome) : outcome.toJson.IsTidy := by
  cases outcome with
  | accepted record verdict | rejected record verdict =>
      exact Json.isTidy_object
        ["outcome", "id", "not_before", "not_after", "subject", "pem", "verdict"] rfl (by decide)
        (by simp [Record.members, verdict.isTidy_toJson])
  | skipped candidate reason =>
      exact Json.isTidy_object
        ["outcome", "id", "not_before", "not_after", "common_name", "issuer_name",
          "serial_number", "reason"] rfl (by decide)
        (by simp [Candidate.members])

namespace Report

theorem isTidy_toJson (report : Report) (texts : List String) : (report.toJson texts).IsTidy := by
  have outcomes := Json.isTidy_array Outcome.isTidy_toJson report.outcomes
  have saved := Json.isTidy_array Json.isTidy_ofText texts
  exact Json.isTidy_object
    ["domain", "date", "total_candidates", "in_window", "outcomes", "saved"] rfl (by decide)
    (by simp [outcomes, saved])

theorem pretty?_eq_some_iff {report : Report} {text : String} :
    report.pretty? = some text ↔
      ∃ texts, report.saved = texts.map RawText.ofText ∧ (report.toJson texts).print = text := by
  have spelled (texts : List String) : report.saved.mapM RawText.text? = some texts ↔
      report.saved = texts.map RawText.ofText := by
    simp only [mapM_eq_some_iff, RawText.text?_eq_some_iff]
    rw [← List.forall₂_map_right_iff (R := Eq), List.forall₂_eq_eq_eq]
  simp only [pretty?, Option.bind_eq_bind, Option.bind_eq_some_iff, spelled, Option.pure_def,
    Option.some.injEq]

theorem exists_pretty?_iff (report : Report) :
    (∃ text, report.pretty? = some text) ↔
      ∀ path ∈ report.saved, path.IsText := by
  constructor
  · rintro ⟨text, printed⟩ path membership
    obtain ⟨texts, spelled, _⟩ := pretty?_eq_some_iff.mp printed
    rw [spelled, List.mem_map] at membership
    obtain ⟨text, _, same⟩ := membership
    exact ⟨text, same.symm⟩
  · intro spelled
    refine ⟨_, pretty?_eq_some_iff.mpr ⟨report.saved.map RawText.shown, ?_, rfl⟩⟩
    have same : ∀ path ∈ report.saved, RawText.ofText path.shown = id path := by
      intro path membership
      obtain ⟨text, rfl⟩ := spelled path membership
      rw [RawText.shown_ofText, id]
    rw [List.map_map, Function.comp_def, List.map_congr_left same, List.map_id]

theorem read_of_pretty? {report : Report} {text : String} (printed : report.pretty? = some text) :
    (Json.read? text).bind ofJson? = some report.withoutDer := by
  obtain ⟨texts, spelled, rfl⟩ := pretty?_eq_some_iff.mp printed
  rw [Json.read?_print (report.isTidy_toJson texts).1, Option.bind_some, ofJson?_toJson spelled]

theorem pretty?_withoutDer (report : Report) : report.withoutDer.pretty? = report.pretty? := by
  simp [pretty?, toJson, withoutDer, Function.comp_def, Outcome.toJson_withoutDer]

end Report

end CertificateAudit
