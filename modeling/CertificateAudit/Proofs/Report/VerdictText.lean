import CertificateAudit.Audit.Event
import CertificateAudit.Proofs.Calendar.TimeStamp
import CertificateAudit.Proofs.Report.Reading
import CertificateAudit.Proofs.Store.Path
import Mathlib.Data.List.Infix

/-!
What the text of a verdict tells. The first nine characters tell its kind, a date holds no space,
so what follows it up to the next space is the date, and the rest is the reason; two verdicts never
have the same text (`text_inj`). The line of a certificate ends with the text of its verdict. The
subject in front of it may look like a verdict itself, but the mark and the end of the line tell
the number and the kind whatever the subject is (`line_tells_kind`).
-/

namespace CertificateAudit

open CertificateAudit.Audit CertificateAudit.Calendar CertificateAudit.Text

namespace Verdict

inductive Kind where
  | good | revokedBefore | revokedLater | unknown
deriving DecidableEq

def kind : Verdict → Kind
  | .good => .good
  | .revokedBefore _ _ => .revokedBefore
  | .revokedLater _ _ => .revokedLater
  | .unknown _ => .unknown

/-- The words with which the text of a verdict begins. -/
def Kind.words : Kind → String
  | .good => "Good"
  | .revokedBefore => "Revoked on "
  | .revokedLater => "Revoked later, on "
  | .unknown => "Unknown ("

/-- The characters behind the date of a revocation. -/
def reasonChars : Option String → List Char
  | some reason => ' ' :: '(' :: (reason.toList ++ [')'])
  | none => []

/-- What the text of a verdict has behind its words. -/
def details : Verdict → List Char
  | .good => []
  | .revokedBefore revokedOn reason | .revokedLater revokedOn reason =>
      revokedOn.chars ++ reasonChars reason
  | .unknown reason => reason.toList ++ [')']

theorem toList_revocationText (revokedOn : Date) (reason : Option String) :
    (revocationText revokedOn reason).toList = revokedOn.chars ++ reasonChars reason := by
  cases reason with
  | none =>
      simp only [revocationText, Date.text, String.toList_ofList, reasonChars, List.append_nil]
  | some reason =>
      simp only [revocationText, Date.text, String.toList_append, String.toList_ofList,
        reasonChars, List.append_assoc]
      rfl

theorem toList_text (verdict : Verdict) :
    verdict.text.toList = verdict.kind.words.toList ++ verdict.details := by
  have revoked (words : String) (revokedOn : Date) (reason : Option String) :
      (words ++ revocationText revokedOn reason).toList =
        words.toList ++ (revokedOn.chars ++ reasonChars reason) := by
    rw [String.toList_append, toList_revocationText]
  cases verdict with
  | good => exact (List.append_nil _).symm
  | revokedBefore revokedOn reason => exact revoked _ revokedOn reason
  | revokedLater revokedOn reason => exact revoked _ revokedOn reason
  | unknown reason =>
      have unknown (words : String) : (words ++ reason ++ ")").toList =
          words.toList ++ (reason.toList ++ [')']) := by
        rw [String.toList_append, String.toList_append, List.append_assoc]
        rfl
      exact unknown _

theorem words_injective {kind other : Kind}
    (same : kind.words.toList.take 9 = other.words.toList.take 9) : kind = other := by
  revert same
  cases kind <;> cases other <;> decide

/-- No two kinds agree on their first nine characters, which lie within the words. -/
theorem kind_eq_of_text_eq {verdict other : Verdict} (same : verdict.text = other.text) :
    verdict.kind = other.kind := by
  have front (verdict : Verdict) :
      verdict.text.toList.take 9 = verdict.kind.words.toList.take 9 := by
    have long {kind : Kind} (worded : kind ≠ .good) : 9 ≤ kind.words.toList.length := by
      revert worded
      cases kind <;> decide
    rw [toList_text]
    cases verdict with
    | good => rw [details, List.append_nil]
    | revokedBefore | revokedLater | unknown =>
        exact List.take_append_of_le_length (long Kind.noConfusion)
  refine words_injective ?_
  rw [← front, ← front, same]

/-- A date holds no space, so it ends where the reason begins. -/
theorem revocation_inj {date day : Date} {reason other : Option String}
    (same : date.chars ++ reasonChars reason = day.chars ++ reasonChars other) :
    date = day ∧ reason = other := by
  have noSpace (date : Date) : ' ' ∉ date.chars :=
    Store.not_mem_chars (by decide) (by decide) (by decide) date
  have dateOf {date day : Date} (chars : date.chars = day.chars) : date = day := by
    refine Date.text_injective ?_
    rw [Date.text, Date.text, chars]
  cases reason with
  | none =>
      cases other with
      | none =>
          simp only [reasonChars, List.append_nil] at same
          exact ⟨dateOf same, rfl⟩
      | some other =>
          simp only [reasonChars, List.append_nil] at same
          exact absurd (same ▸ List.mem_append_right _ List.mem_cons_self) (noSpace date)
  | some reason =>
      cases other with
      | none =>
          simp only [reasonChars, List.append_nil] at same
          exact absurd (same ▸ List.mem_append_right _ List.mem_cons_self) (noSpace day)
      | some other =>
          obtain ⟨chars, behind⟩ := cons_append_inj_of_not_mem (noSpace date) (noSpace day) same
          obtain ⟨reasons, _⟩ := List.append_inj' (List.cons.inj behind).2 rfl
          exact ⟨dateOf chars, congrArg some (String.toList_inj.mp reasons)⟩

theorem text_inj {verdict other : Verdict} : verdict.text = other.text ↔ verdict = other := by
  refine ⟨?_, congrArg text⟩
  intro same
  have sameKind := kind_eq_of_text_eq same
  have sameDetails : verdict.details = other.details := by
    have spelled := congrArg String.toList same
    rwa [toList_text, toList_text, sameKind, List.append_cancel_left_eq] at spelled
  cases verdict with
  | good => cases other <;> first | rfl | cases sameKind
  | revokedBefore revokedOn reason =>
      cases other with
      | revokedBefore =>
          obtain ⟨rfl, rfl⟩ := revocation_inj sameDetails
          rfl
      | good | revokedLater | unknown => cases sameKind
  | revokedLater revokedOn reason =>
      cases other with
      | revokedLater =>
          obtain ⟨rfl, rfl⟩ := revocation_inj sameDetails
          rfl
      | good | revokedBefore | unknown => cases sameKind
  | unknown reason =>
      cases other with
      | unknown =>
          obtain ⟨reasons, _⟩ := List.append_inj' sameDetails rfl
          rw [String.toList_inj.mp reasons]
      | good | revokedBefore | revokedLater => cases sameKind

theorem getLast?_text_eq_iff (verdict : Verdict) :
    verdict.text.toList.getLast? = some 'd' ↔ verdict = .good := by
  have closed (front : List Char) : (front ++ [')']).getLast? ≠ some 'd' := by simp
  have revoked (words : List Char) (revokedOn : Date) (reason : Option String) :
      (words ++ (revokedOn.chars ++ reasonChars reason)).getLast? ≠ some 'd' := by
    cases reason with
    | none =>
        have given : revokedOn.chars ≠ [] := by simp [Date.chars]
        have noLetter : 'd' ∉ revokedOn.chars :=
          Store.not_mem_chars (by decide) (by decide) (by decide) revokedOn
        rw [reasonChars, List.append_nil, List.getLast?_append_of_ne_nil _ given]
        exact fun last => noLetter (List.mem_of_getLast? last)
    | some reason =>
        have regrouped : words ++ (revokedOn.chars ++ reasonChars (some reason)) =
            (words ++ (revokedOn.chars ++ ' ' :: '(' :: reason.toList)) ++ [')'] := by
          simp [reasonChars]
        rw [regrouped]
        exact closed _
  rw [toList_text]
  cases verdict with
  | good => exact iff_of_true (by decide) rfl
  | revokedBefore revokedOn reason => exact iff_of_false (revoked _ _ _) Verdict.noConfusion
  | revokedLater revokedOn reason => exact iff_of_false (revoked _ _ _) Verdict.noConfusion
  | unknown reason =>
      rw [details, ← List.append_assoc]
      exact iff_of_false (closed _) Verdict.noConfusion

theorem text_ne_nil (verdict : Verdict) : verdict.text.toList ≠ [] := by
  rw [toList_text]
  intro empty
  have noWords : ∀ kind : Kind, kind.words.toList ≠ [] := by
    intro kind
    cases kind <;> decide
  exact noWords _ (List.append_eq_nil_iff.mp empty).1

/-! The line of a certificate. -/

def Kind.mark : Kind → Char
  | .good | .revokedLater => '✓'
  | .unknown => '⚠'
  | .revokedBefore => '✗'

theorem toList_verdictLine (id : Int) (subject : String) (verdict : Verdict) :
    (verdictLine id subject verdict).toList =
      [' ', ' ', verdict.kind.mark, ' '] ++ ((toString id).toList ++
        ' ' :: (subject.toList ++ ':' :: ' ' :: verdict.text.toList)) := by
  have marked (mark : Char) (opening : String) (spelled : opening.toList = [' ', ' ', mark, ' ']) :
      (opening ++ (toString id ++ " " ++ subject ++ ": " ++ verdict.text)).toList =
        [' ', ' ', mark, ' '] ++ ((toString id).toList ++
          ' ' :: (subject.toList ++ ':' :: ' ' :: verdict.text.toList)) := by
    have space : " ".toList = [' '] := by decide
    have colon : ": ".toList = [':', ' '] := by decide
    simp only [String.toList_append, spelled, space, colon, List.append_assoc,
      List.cons_append, List.nil_append]
  cases verdict with
  | good | revokedLater => exact marked '✓' "  ✓ " (by decide)
  | unknown => exact marked '⚠' "  ⚠ " (by decide)
  | revokedBefore => exact marked '✗' "  ✗ " (by decide)

theorem space_not_mem_toString (id : Int) : ' ' ∉ (toString id).toList := by
  have digits (n : Nat) : ' ' ∉ Nat.toDigits 10 n := by
    intro membership
    cases (Json.isWhole_toDigits n).1.2 ' ' membership
  cases id with
  | ofNat n => rw [Json.toList_toString_ofNat]; exact digits n
  | negSucc n =>
      rw [Json.toList_toString_negSucc, List.mem_cons]
      exact not_or.mpr ⟨by decide, digits _⟩

theorem toString_int_injective {id other : Int}
    (same : (toString id).toList = (toString other).toList) :
    id = other := by
  have read := Json.int?_ofInt id
  rw [Json.ofInt, same] at read
  exact Option.some.inj (read.symm.trans (Json.int?_ofInt other))

variable {id other : Int} {subject name : String} {verdict verdict' : Verdict}

/-- The number ends at the first space, so the line tells it and the text behind it. -/
theorem verdictLine_inj (same : verdictLine id subject verdict = verdictLine other name verdict') :
    verdict.kind.mark = verdict'.kind.mark ∧ id = other ∧
      subject.toList ++ ':' :: ' ' :: verdict.text.toList =
        name.toList ++ ':' :: ' ' :: verdict'.text.toList := by
  have spelled := congrArg String.toList same
  rw [toList_verdictLine, toList_verdictLine] at spelled
  obtain ⟨marks, behind⟩ := List.append_inj spelled rfl
  obtain ⟨numbers, rest⟩ := cons_append_inj_of_not_mem (space_not_mem_toString id)
    (space_not_mem_toString other) behind
  simp only [List.cons.injEq, true_and, and_true] at marks
  exact ⟨marks, toString_int_injective numbers, rest⟩

/-- Whatever the subjects are, equal lines are about verdicts of one kind. -/
theorem line_tells_kind (same : verdictLine id subject verdict = verdictLine other name verdict') :
    verdict.kind = verdict'.kind := by
  obtain ⟨marks, _, rest⟩ := verdictLine_inj same
  have lastOf (subject : String) (verdict : Verdict) :
      (subject.toList ++ ':' :: ' ' :: verdict.text.toList).getLast? =
        verdict.text.toList.getLast? := by
    have regrouped : subject.toList ++ ':' :: ' ' :: verdict.text.toList =
        (subject.toList ++ [':', ' ']) ++ verdict.text.toList := by simp
    rw [regrouped, List.getLast?_append_of_ne_nil _ verdict.text_ne_nil]
  have good : verdict = .good ↔ verdict' = .good := by
    rw [← getLast?_text_eq_iff, ← getLast?_text_eq_iff, ← lastOf subject, ← lastOf name, rest]
  cases verdict <;> cases verdict' <;> first | rfl | simp [kind, Kind.mark] at marks good

theorem line_inj_of_subject :
    verdictLine id subject verdict = verdictLine id subject verdict' ↔ verdict = verdict' := by
  refine ⟨?_, congrArg (verdictLine id subject)⟩
  intro same
  obtain ⟨_, _, rest⟩ := verdictLine_inj same
  have texts := List.append_cancel_left rest
  exact text_inj.mp (String.toList_inj.mp (List.cons.inj (List.cons.inj texts).2).2)

/-- A subject without a colon that a space follows, as stands between a subject and a verdict. -/
def IsPlainSubject (subject : String) : Prop :=
  ¬ [':', ' '] <:+: subject.toList

instance (subject : String) : Decidable (IsPlainSubject subject) :=
  inferInstanceAs (Decidable (¬ _))

/-- Behind plain subjects the text of the verdict starts at the first colon with a space. -/
theorem line_inj_of_plain (plain : IsPlainSubject subject) (otherPlain : IsPlainSubject name)
    (same : verdictLine id subject verdict = verdictLine other name verdict') :
    subject = name ∧ verdict = verdict' := by
  obtain ⟨_, _, rest⟩ := verdictLine_inj same
  obtain ⟨subjects, texts⟩ := append_pair_inj_of_not_infix (by decide) plain otherPlain rest
  exact ⟨String.toList_inj.mp subjects, text_inj.mp (String.toList_inj.mp texts)⟩

/-- Verdicts with the same text are the same verdict, so no verdict that counts as valid has the
text of one that does not; and of one certificate the line of the verdict determines the verdict
too. Lines that are equal whatever certificates they are about have one number and verdicts of one
kind, and if neither subject holds a colon with a space behind it, one subject and one verdict. -/
theorem text_tells_verdict :
    (∀ verdict other : Verdict, verdict.text = other.text ↔ verdict = other) ∧
    (∀ verdict other : Verdict, verdict.isValid = true → other.isValid = false →
      verdict.text ≠ other.text) ∧
    (∀ date id subject verdict other,
      (Event.verdictReached id subject verdict).line? date =
        (Event.verdictReached id subject other).line? date ↔ verdict = other) ∧
    ∀ date id subject verdict other name verdict',
      (Event.verdictReached id subject verdict).line? date =
        (Event.verdictReached other name verdict').line? date →
      id = other ∧ verdict.kind = verdict'.kind ∧
        (IsPlainSubject subject → IsPlainSubject name → subject = name ∧ verdict = verdict') := by
  refine ⟨?_, ?_, ?_, ?_⟩
  · exact fun verdict other => text_inj
  · intro verdict other valid invalid same
    rw [text_inj.mp same, invalid] at valid
    cases valid
  · intro date id subject verdict other
    exact Option.some_inj.trans line_inj_of_subject
  · intro date id subject verdict other name verdict' same
    have line := Option.some.inj same
    refine ⟨(verdictLine_inj line).2.1, line_tells_kind line, ?_⟩
    exact fun plain otherPlain => line_inj_of_plain plain otherPlain line

/-- A revocation with a reason that ends like a good verdict. -/
def disguised : Verdict :=
  .revokedLater leapSecond.date (some "superseded): Good (")

/-- An unknown verdict whose reason is the text of the revocation, but for its last character. -/
def disguise : Verdict :=
  .unknown "Revoked later, on 2024-02-29 (superseded): Good ("

theorem text_tells_verdict_disguised :
    (disguised.isValid = true ∧ disguise.isValid = false ∧ disguised.text ≠ disguise.text) ∧
    (Event.verdictReached 7 "CN=example.com" disguised).line? leapSecond.date =
      some "  ✓ 7 CN=example.com: Revoked later, on 2024-02-29 (superseded): Good ()" ∧
    IsPlainSubject "CN=example.com" ∧
    ∀ verdict, (Event.verdictReached 7 "CN=example.com" verdict).line? leapSecond.date =
      some "  ✓ 7 CN=example.com: Revoked later, on 2024-02-29 (superseded): Good ()" →
      disguised = verdict := by
  have valid : disguised.isValid = true := rfl
  have invalid : disguise.isValid = false := rfl
  have line : (Event.verdictReached 7 "CN=example.com" disguised).line? leapSecond.date =
      some "  ✓ 7 CN=example.com: Revoked later, on 2024-02-29 (superseded): Good ()" := by
    decide +kernel
  have plain : IsPlainSubject "CN=example.com" := by decide
  refine ⟨⟨valid, invalid, text_tells_verdict.2.1 _ _ valid invalid⟩, line, plain, ?_⟩
  intro verdict same
  exact ((text_tells_verdict.2.2.2 _ _ _ _ _ _ _ (line.trans same.symm)).2.2 plain plain).2

end Verdict

end CertificateAudit
