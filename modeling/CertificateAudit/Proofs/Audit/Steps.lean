import CertificateAudit.Proofs.Audit.Trace
import CertificateAudit.Proofs.Http.Failure
import CertificateAudit.Proofs.Ocsp.Selection
import CertificateAudit.Proofs.Ocsp.Status
import CertificateAudit.Proofs.Report.VerdictText

/-!
The steps of an audit and the line feeds in their lines. An audit that ends with a report tells a
step for each thing in the report, in a fixed order (`run_tells_steps`). Its own words, numbers,
dates and paths have no line feeds, nor has the reason why a search failed or the reason of a
revocation; so all line feeds come from the subjects of certificates and from the reasons why
something about a single certificate failed (`lineFeedsIn_stepLines`).
-/

namespace CertificateAudit

open CertificateAudit.Audit CertificateAudit.Calendar CertificateAudit.Http
open CertificateAudit.Store CertificateAudit.Text

variable {State : Type}

theorem isOneLine_toString_nat (n : Nat) : IsOneLine (toString n) :=
  isOneLine_iff.mpr (Url.hasNoControls_toString n).lineFeed_not_mem

theorem isOneLine_toString_int (n : Int) : IsOneLine (toString n) := by
  have digits (n : Nat) := Url.hasNoControls_toDigits (by decide : 1 < 10) (by decide) n
  rw [isOneLine_iff]
  refine Url.HasNoControls.lineFeed_not_mem ?_
  cases n with
  | ofNat n =>
      rw [Json.toList_toString_ofNat]
      exact digits n
  | negSucc n =>
      rw [Json.toList_toString_negSucc, Url.hasNoControls_cons_iff]
      exact ⟨by decide, digits _⟩

theorem Calendar.Date.isOneLine_text (date : Date) : IsOneLine date.text := by
  rw [isOneLine_iff, Date.text, String.toList_ofList]
  exact Store.not_mem_chars (by decide) (by decide) (by decide) date

/-! Revocations. -/

theorem Ocsp.isOneLine_reasonName (code : UInt8) : IsOneLine (Ocsp.reasonName code) := by
  unfold Ocsp.reasonName
  split <;> first | decide | exact .append (by decide) (isOneLine_toString_nat _)

/-- The reason of a revocation is one of the program's own words. -/
theorem Ocsp.isOneLine_of_certStatus {response serial : List UInt8} {time : Moment}
    {reason : String} (given : certStatus response serial = .ok (.revoked time (some reason))) :
    IsOneLine reason := by
  obtain ⟨_, _, _, _, _, element, _, _, read⟩ := certStatus_eq_ok_iff.mp given
  cases readStatus_eq_ok_iff.mp read with
  | revoked revocation =>
      cases revocation with
      | intro _ _ _ _ _ _ has =>
          cases has
          exact isOneLine_reasonName _

namespace Verdict

/-- Why there is no verdict. -/
def failure? : Verdict → Option String
  | .unknown reason => some reason
  | _ => none

def revocationReason? : Verdict → Option String
  | .revokedBefore _ reason | .revokedLater _ reason => reason
  | _ => none

theorem lineFeeds_text {verdict : Verdict}
    (named : ∀ reason ∈ verdict.revocationReason?, IsOneLine reason) :
    lineFeeds verdict.text = lineFeedsIn verdict.failure?.toList := by
  have revoked (words : String) (single : IsOneLine words) (revokedOn : Date)
      {reason : Option String} (named : ∀ text ∈ reason, IsOneLine text) :
      IsOneLine (words ++ revocationText revokedOn reason) := by
    refine single.append ?_
    cases reason with
    | none => exact revokedOn.isOneLine_text
    | some reason =>
        exact ((revokedOn.isOneLine_text.append (by decide)).append (named reason rfl)).append
          (by decide)
  cases verdict with
  | good => decide
  | revokedBefore revokedOn reason => exact revoked _ (by decide) revokedOn named
  | revokedLater revokedOn reason => exact revoked _ (by decide) revokedOn named
  | unknown reason =>
      have around (front back : String) (single : IsOneLine front) (last : IsOneLine back) :
          lineFeeds (front ++ reason ++ back) = lineFeeds reason := by
        rw [last.lineFeeds_append_right, single.lineFeeds_append_left]
      exact around _ _ (by decide) (by decide)

end Verdict

namespace Revocation

theorem eq_of_revocationReason? {date : Date} {status : Except RevocationError Ocsp.CertStatus}
    {reason : String} (given : (verdictFor date status).revocationReason? = some reason) :
    ∃ time, status = .ok (.revoked time (some reason)) := by
  rcases status with error | _ | ⟨time, other⟩ | _
  · cases given
  · cases given
  · have verdict : (verdictFor date (.ok (.revoked time other))).revocationReason? = other := by
      by_cases later : date < time.date
      · exact congrArg Verdict.revocationReason? (if_pos later)
      · exact congrArg Verdict.revocationReason? (if_neg later)
    rw [verdict] at given
    exact ⟨time, by rw [given]⟩
  · cases given

theorem StatusCourse.isOneLine {der : List UInt8} {cache cache' : IssuerCache}
    {made : List Exchange} {status : Except RevocationError Ocsp.CertStatus}
    (course : StatusCourse der cache made status cache') (date : Date) :
    ∀ reason ∈ (verdictFor date status).revocationReason?, IsOneLine reason := by
  intro reason given
  obtain ⟨time, revoked⟩ := eq_of_revocationReason? given
  cases course with
  | asked =>
      unfold statusOf at revoked
      split at revoked
      · cases revoked
      · split at revoked
        · next told =>
            cases revoked
            exact Ocsp.isOneLine_of_certStatus told
        · cases revoked
  | unreadable | noResponder | noIssuer | badIssuer => cases revoked

end Revocation

namespace Outcome

/-- The number of the candidate. -/
def number : Outcome → Int
  | .accepted record _ | .rejected record _ => record.id
  | .skipped candidate _ => candidate.id

theorem IsOf.number_eq {candidate : Candidate} {outcome : Outcome}
    (isOf : outcome.IsOf candidate) : outcome.number = candidate.id := by
  cases outcome with
  | accepted | rejected => exact isOf.1
  | skipped => exact congrArg Candidate.id isOf

/-- The texts in the line of an outcome that are not the program's own: the subject of the
certificate, and why something about it failed. -/
def foreignTexts : Outcome → List String
  | .accepted record verdict | .rejected record verdict =>
      record.subject :: verdict.failure?.toList
  | .skipped _ reason => [reason]

theorem foreignTexts_ofVerdict (record : Record) (verdict : Verdict) :
    (ofVerdict record verdict).foreignTexts = record.subject :: verdict.failure?.toList := by
  unfold ofVerdict
  split <;> rfl

end Outcome

/-! Paths. -/

namespace Store

theorem Path.isOneLine_join {base path : RawText} (single : base.IsOneLine)
    (other : path.IsOneLine) : (Path.join base path).IsOneLine := by
  unfold Path.join
  split
  · exact other
  · split
    · exact single.append other
    · exact (single.append (by decide)).append other

theorem isOneLine_label {domain : String} (single : IsOneLine domain) (date : Date) :
    IsOneLine (label domain date) :=
  (single.append (by decide)).append date.isOneLine_text

theorem isOneLine_fileName {label : String} (single : IsOneLine label) (index : Nat) :
    IsOneLine (fileName label index) :=
  ((single.append (by decide)).append (isOneLine_toString_nat index)).append (by decide)

theorem isOneLine_of_save {base : RawText} {domain : String} {date : Date}
    {ders : List (List UInt8)} {tree tree' : FileTree} {paths : List RawText}
    (single : base.IsOneLine) (singleDomain : IsOneLine domain)
    (saved : save FileTree.disk base domain date ders tree = (.ok paths, tree')) :
    ∀ path ∈ paths, path.IsOneLine := by
  intro path membership
  rw [save_paths saved] at membership
  obtain ⟨index, _, rfl⟩ := List.mem_map.mp membership
  have singleLabel := isOneLine_label singleDomain date
  have directory := Path.isOneLine_join single (RawText.isOneLine_ofText singleLabel)
  exact Path.isOneLine_join directory
    (RawText.isOneLine_ofText (isOneLine_fileName singleLabel index))

end Store

theorem Report.isOneLine_summary {report : Report} (single : IsOneLine report.domain) :
    IsOneLine report.summary := by
  have count := isOneLine_toString_nat report.saved.length
  refine .append (.append (.append (.append (.append ?_ count) ?_) single) ?_) ?_
  · decide
  · decide
  · decide
  · exact report.date.isOneLine_text

/-! Searches. -/

namespace Log

theorem isOneLine_baseUrl {settings : Settings} (single : IsOneLine settings.baseUrl) :
    IsOneLine (baseUrl settings) := by
  rw [isOneLine_iff] at single ⊢
  rw [baseUrl, String.toList_ofList, dropEndWhile, List.mem_reverse]
  intro inside
  exact single (List.mem_reverse.mp ((List.dropWhile_sublist _).subset inside))

theorem search_apply (network : Network State) (settings : Settings) (domain : String)
    (world : World State) :
    (search (World.send network) settings domain world).1 =
      candidatesOf (searchRequest settings domain).url
        (network.answer (searchRequest settings domain) world.network).1 := rfl

/-- What a log failed to give is told on one line if its base is. -/
theorem isOneLine_of_candidatesOf (transport : Transport State) {state : State}
    {settings : Settings} {domain : String} {error : LogError}
    (base : IsOneLine settings.baseUrl) (single : IsOneLine domain)
    (failed : candidatesOf (searchRequest settings domain).url
      (transport.network.answer (searchRequest settings domain) state).1 = .error error) :
    IsOneLine error.message := by
  have url : IsOneLine (searchRequest settings domain).url :=
    (((isOneLine_baseUrl base).append (by decide)).append single).append (by decide)
  unfold candidatesOf at failed
  split at failed
  case h_1 => cases failed
  case h_2 failure usable body =>
    cases failed
    have reason : IsOneLine failure.message := by
      unfold bodyOf at body
      split at body
      case h_1 error unsent =>
        cases body
        exact transport.network_isOneLine unsent
      case h_2 =>
        split at body
        · split at body <;> cases body
          decide
        · cases body
          exact absurd rfl (usable _)
    exact ((IsOneLine.append (by decide) url).append (by decide)).append reason
  case h_3 body _ =>
    split at failed <;> cases failed
    decide

end Log

namespace Audit

/-- The steps of an audit that have a line, in their order: the search if it failed, what it
found, two for each candidate, and one for each file. -/
def stepEvents (listed : Except LogError (List Candidate)) (report : Report) : List Event :=
  failureEvents listed ++ [.searchComplete report.totalCandidates report.inWindow] ++
    report.outcomes.flatMap (fun outcome => [Event.fetching outcome.number, outcome.ending]) ++
    report.saved.map Event.saved

/-- One text for each step of an audit, and one for its report. -/
def stepLines (listed : Except LogError (List Candidate)) (report : Report) : List String :=
  (stepEvents listed report).filterMap (Event.line? report.date) ++ [report.summary]

theorem length_stepLines (listed : Except LogError (List Candidate)) (report : Report) :
    (stepLines listed report).length = (failureEvents listed).length + 1 +
      2 * report.outcomes.length + report.saved.length + 1 := by
  have told : ∀ event ∈ stepEvents listed report, (event.line? report.date).isSome := by
    intro event membership
    have started : event ≠ .searchStarted := by
      rintro rfl
      have noEnding (outcome : Outcome) : .searchStarted ≠ outcome.ending := by
        cases outcome <;> exact Event.noConfusion
      cases listed <;> simp [stepEvents, failureEvents, noEnding] at membership
    cases event <;> first | rfl | exact absurd rfl started
  rw [stepLines, List.length_append, List.length_filterMap_eq_countP,
    List.countP_eq_length.mpr told, stepEvents]
  simp [List.length_flatMap]
  omega

variable {settings : Settings} {domain : String} {date : Date} {cache cache' : IssuerCache}

theorem lineFeeds_verdictLine (id : Int) (subject : String) (verdict : Verdict) :
    lineFeeds (verdictLine id subject verdict) =
      lineFeeds subject + lineFeeds verdict.text := by
  have number := isOneLine_toString_int id
  have space : IsOneLine " " := by decide
  have colon : IsOneLine ": " := by decide
  have marked (mark : String) (single : IsOneLine mark) : lineFeeds
      (mark ++ (toString id ++ " " ++ subject ++ ": " ++ verdict.text)) =
        lineFeeds subject + lineFeeds verdict.text := by
    rw [single.lineFeeds_append_left, lineFeeds_append, colon.lineFeeds_append_right,
      (number.append space).lineFeeds_append_left]
  unfold verdictLine
  dsimp only
  split
  · exact marked _ (by decide)
  · split
    · exact marked _ (by decide)
    · exact marked _ (by decide)

theorem lineFeeds_failLine (id : Int) (reason : String) :
    lineFeeds (failLine ("Skipped " ++ toString id ++ ": " ++ reason)) =
      lineFeeds reason := by
  have mark : IsOneLine "  ✗ " := by decide
  have front : IsOneLine ("Skipped " ++ toString id ++ ": ") :=
    (IsOneLine.append (by decide) (isOneLine_toString_int id)).append (by decide)
  rw [failLine, mark.lineFeeds_append_left, front.lineFeeds_append_left]

theorem CandidateCourse.lineFeedsIn_lines {candidate : Candidate} {made : List Exchange}
    {told : List Event} {outcome : Outcome}
    (course : CandidateCourse settings date candidate cache made told outcome cache') :
    lineFeedsIn ([.fetching outcome.number, outcome.ending].filterMap (Event.line? date)) =
      lineFeedsIn outcome.foreignTexts := by
  have fetching : IsOneLine ("fetching " ++ toString outcome.number) :=
    .append (by decide) (isOneLine_toString_int _)
  have behind {ending : Event} {text : String} (line : ending.line? date = some text) :
      lineFeedsIn ([.fetching outcome.number, ending].filterMap (Event.line? date)) =
        lineFeeds text := by
    have first : Event.line? date (.fetching outcome.number) =
      some ("fetching " ++ toString outcome.number) := rfl
    rw [List.filterMap_cons_some first, List.filterMap_cons_some line, List.filterMap_nil,
      lineFeedsIn, lineFeedsIn, fetching, Nat.zero_add]
    rfl
  cases course with
  | @skipped _ error => exact (behind rfl).trans (lineFeeds_failLine candidate.id error.message)
  | judged _ found =>
      rw [Outcome.ending_ofVerdict, Outcome.foreignTexts_ofVerdict, behind rfl,
        lineFeeds_verdictLine, Verdict.lineFeeds_text (found.isOneLine date), lineFeedsIn]

theorem AuditCourse.lineFeedsIn_lines {candidates : List Candidate}
    {segments : List (List Exchange)} {tellings : List (List Event)} {outcomes : List Outcome}
    (course : AuditCourse settings date candidates cache segments tellings outcomes cache') :
    lineFeedsIn ((outcomes.flatMap fun outcome =>
        [.fetching outcome.number, outcome.ending]).filterMap (Event.line? date)) =
      lineFeedsIn (outcomes.flatMap Outcome.foreignTexts) := by
  induction course with
  | done => rfl
  | next single _ inductionHypothesis =>
      rw [List.flatMap_cons, List.flatMap_cons, List.filterMap_append, lineFeedsIn_append,
        lineFeedsIn_append, single.lineFeedsIn_lines, inductionHypothesis]

theorem AuditCourse.flatten_tellings {candidates : List Candidate}
    {segments : List (List Exchange)} {tellings : List (List Event)} {outcomes : List Outcome}
    (course : AuditCourse settings date candidates cache segments tellings outcomes cache') :
    tellings.flatten =
      outcomes.flatMap fun outcome => [.fetching outcome.number, outcome.ending] := by
  induction course with
  | done => rfl
  | next single _ inductionHypothesis =>
      rw [List.flatten_cons, inductionHypothesis, single.told_eq, List.flatMap_cons,
        single.isOf.number_eq]

/-- An audit that ends with a report has told the steps in it. -/
theorem run_tells_steps {network : Network State} {world world' : World State} {report : Report}
    (ended : run (World.environment network) settings domain date cache world =
      ((.ok report, cache'), world')) :
    world'.events = world.events ++ .searchStarted ::
      stepEvents (Log.search (World.send network) settings domain world).1 report := by
  obtain ⟨state, made, told, result, last, files, held, course, same⟩ :=
    run_course network settings domain date cache world
  rw [ended] at same
  cases course with
  | @ended reply candidates inWindow segments tellings outcomes _ saved _ listed valid audited
      stored =>
      cases saved with
      | error error => cases same
      | ok paths =>
          cases same
          rw [Log.search_apply, ← held.reply_of_cons, World.after, searchEvents_eq,
            audited.flatten_tellings]
          simp [stepEvents, savedEvents]

theorem lineFeedsIn_searchComplete (date : Date) (total inWindow : Nat) :
    lineFeedsIn ([Event.searchComplete total inWindow].filterMap (Event.line? date)) = 0 := by
  have counted := isOneLine_toString_nat total
  have valid := isOneLine_toString_nat inWindow
  rw [lineFeedsIn_eq_zero_iff]
  intro text membership
  cases List.mem_singleton.mp membership
  refine IsOneLine.append ?_
    (.append (.append (.append (.append (.append ?_ counted) ?_) valid) ?_) ?_)
  · decide
  · decide
  · decide
  · decide
  · exact date.isOneLine_text

theorem lineFeedsIn_failureEvents (transport : Transport State) (world : World State)
    (base : IsOneLine settings.baseUrl) (single : IsOneLine domain) (date : Date) :
    lineFeedsIn ((failureEvents (Log.search (World.send transport.network) settings domain
      world).1).filterMap (Event.line? date)) = 0 := by
  rw [lineFeedsIn_eq_zero_iff]
  cases listed : (Log.search (World.send transport.network) settings domain world).1 with
  | ok candidates => exact fun _ membership => absurd membership List.not_mem_nil
  | error error =>
      rw [Log.search_apply] at listed
      have reason := Log.isOneLine_of_candidatesOf transport base single listed
      intro text membership
      cases List.mem_singleton.mp membership
      exact .append (by decide) (.append (by decide) reason)

theorem lineFeedsIn_saved {paths : List RawText} (single : ∀ path ∈ paths, path.IsOneLine)
    (date : Date) : lineFeedsIn ((paths.map Event.saved).filterMap (Event.line? date)) = 0 := by
  rw [lineFeedsIn_eq_zero_iff]
  intro text membership
  obtain ⟨event, isSaved, line⟩ := List.mem_filterMap.mp membership
  obtain ⟨path, isPath, rfl⟩ := List.mem_map.mp isSaved
  cases line
  exact .append (by decide) (single path isPath).shown

/-- All line feeds in the lines of an audit come from what it was given about certificates. -/
theorem lineFeedsIn_stepLines (transport : Transport State) {world world' : World State}
    {report : Report} (base : IsOneLine settings.baseUrl) (single : IsOneLine domain)
    (directory : settings.directory.IsOneLine)
    (ended : run (World.environment transport.network) settings domain date cache world =
      ((.ok report, cache'), world')) :
    lineFeedsIn (stepLines (Log.search (World.send transport.network) settings domain world).1
      report) = lineFeedsIn (report.outcomes.flatMap Outcome.foreignTexts) := by
  obtain ⟨segments, tellings, audited, stored, same⟩ := run_eq_ok ended
  have dated : report.date = date := by rw [same]
  have summary : IsOneLine report.summary := report.isOneLine_summary (by rw [same]; exact single)
  have saved := lineFeedsIn_saved (isOneLine_of_save directory single stored) date
  rw [stepLines, dated, stepEvents, List.filterMap_append, List.filterMap_append,
    List.filterMap_append, lineFeedsIn_append, lineFeedsIn_append, lineFeedsIn_append,
    lineFeedsIn_append, lineFeedsIn_failureEvents transport world base single date,
    lineFeedsIn_searchComplete, audited.lineFeedsIn_lines, saved, lineFeedsIn, summary,
    lineFeedsIn, Nat.zero_add, Nat.add_zero]

end Audit

end CertificateAudit
