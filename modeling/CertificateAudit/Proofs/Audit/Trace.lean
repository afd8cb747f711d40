import CertificateAudit.Proofs.Audit.Report

/-!
The events of an audit and its result tell the same. Two events are told about each candidate
that is valid on the date, and the second of them says what its outcome says
(`Outcome.IsToldBy`); `run_events` gives the whole trace of an audit in terms of what the search
found, of these events and of the result.
-/

namespace CertificateAudit

open CertificateAudit.Audit CertificateAudit.Calendar CertificateAudit.Http
open CertificateAudit.Store

variable {State : Type}

namespace Outcome

/-- The last event about a candidate of which this became. -/
def ending : Outcome → Event
  | .accepted record verdict | .rejected record verdict =>
      .verdictReached record.id record.subject verdict
  | .skipped candidate reason => .fetchFailed candidate.id reason

theorem ending_ofVerdict (record : Record) (verdict : Verdict) :
    (ofVerdict record verdict).ending = .verdictReached record.id record.subject verdict := by
  unfold ofVerdict
  split <;> rfl

/-- The last event about a candidate says what its outcome says: either its certificate could
not be had, and why, or the verdict on it, which decides whether it is accepted. -/
structure IsToldBy (candidate : Candidate) (outcome : Outcome) (ending : Event) : Prop where
  either : (∃ reason, ending = .fetchFailed candidate.id reason) ∨
    ∃ subject verdict, ending = .verdictReached candidate.id subject verdict
  fetchFailed_iff : ∀ reason,
    ending = .fetchFailed candidate.id reason ↔ outcome = .skipped candidate reason
  verdictReached_iff : ∀ subject verdict,
    ending = .verdictReached candidate.id subject verdict ↔
      ∃ record, record.id = candidate.id ∧ record.subject = subject ∧
        outcome = if verdict.isValid then .accepted record verdict else .rejected record verdict

theorem isToldBy_skipped (candidate : Candidate) (reason : String) :
    (skipped candidate reason).IsToldBy candidate (.fetchFailed candidate.id reason) := by
  refine ⟨.inl ⟨reason, rfl⟩, ?_, ?_⟩
  · intro other
    simp
  · intro subject verdict
    refine iff_of_false (by simp) ?_
    rintro ⟨record, _, _, same⟩
    split at same <;> cases same

theorem isToldBy_ofVerdict {candidate : Candidate} {record : Record} (verdict : Verdict)
    (sameId : record.id = candidate.id) :
    (ofVerdict record verdict).IsToldBy candidate
      (.verdictReached record.id record.subject verdict) := by
  refine ⟨.inr ⟨record.subject, verdict, by rw [sameId]⟩, ?_, ?_⟩
  · intro reason
    refine iff_of_false (by simp) ?_
    intro same
    unfold ofVerdict at same
    split at same <;> cases same
  · intro subject other
    constructor
    · intro same
      injection same with _ sameSubject sameVerdict
      refine ⟨record, sameId, sameSubject, ?_⟩
      rw [sameVerdict]
      rfl
    · rintro ⟨judged, sameId', rfl, same⟩
      -- An outcome determines the event about its verdict.
      have sameEnding : (ofVerdict record verdict).ending = (ofVerdict judged other).ending :=
        congrArg ending same
      rw [ending_ofVerdict, ending_ofVerdict, sameId'] at sameEnding
      exact sameEnding

end Outcome

namespace Audit

variable {settings : Settings} {domain : String} {date : Date} {cache cache' : IssuerCache}

namespace CandidateCourse

variable {candidate : Candidate} {made : List Exchange} {told : List Event} {outcome : Outcome}

theorem told_eq
    (course : CandidateCourse settings date candidate cache made told outcome cache') :
    told = [.fetching candidate.id, outcome.ending] := by
  cases course with
  | skipped => rfl
  | judged => rw [Outcome.ending_ofVerdict]

theorem isToldBy
    (course : CandidateCourse settings date candidate cache made told outcome cache') :
    outcome.IsToldBy candidate outcome.ending := by
  cases course with
  | skipped => exact Outcome.isToldBy_skipped _ _
  | judged given _ =>
      obtain ⟨_, _, _, _, same⟩ := Log.recordOf_eq_ok_iff.mp given
      rw [Outcome.ending_ofVerdict]
      apply Outcome.isToldBy_ofVerdict
      rw [same]

end CandidateCourse

theorem AuditCourse.tellings_eq {candidates : List Candidate} {segments : List (List Exchange)}
    {tellings : List (List Event)} {outcomes : List Outcome}
    (course : AuditCourse settings date candidates cache segments tellings outcomes cache') :
    tellings = List.zipWith (fun candidate outcome => [.fetching candidate.id, outcome.ending])
      candidates outcomes := by
  induction course with
  | done => rfl
  | next single _ inductionHypothesis =>
      rw [single.told_eq, inductionHypothesis]
      rfl

/-- The event about a search that failed. -/
def failureEvents : Except LogError (List Candidate) → List Event
  | .ok _ => []
  | .error error => [.searchFailed error.message]

theorem found_eq (reply : Reply) :
    found settings domain reply =
      (Log.candidatesOf (Log.searchRequest settings domain).url reply).toOption.getD [] := by
  unfold found
  split
  · next listed =>
      rw [listed]
      rfl
  · next failed =>
      rw [failed]
      rfl

theorem searchEvents_eq (reply : Reply) :
    searchEvents settings domain reply = .searchStarted ::
      failureEvents (Log.candidatesOf (Log.searchRequest settings domain).url reply) := rfl

theorem auditFound_apply (network : Network State) (settings : Settings) (domain : String)
    (date : Date) (cache : IssuerCache) (world : World State) :
    let listed := (Log.search (World.send network) settings domain world).1
    let candidates := listed.toOption.getD []
    let inWindow := candidates.filter fun candidate =>
      candidate.notBefore ≤ date ∧ date ≤ candidate.notAfter
    ∃ outcomes cache' world',
      auditFound (World.environment network) settings domain date cache world =
        ((candidates, outcomes, cache'), world') ∧
      world'.files = world.files ∧
      world'.events = world.events ++ (.searchStarted :: failureEvents listed ++
        .searchComplete candidates.length inWindow.length ::
          (List.zipWith (fun candidate outcome => [.fetching candidate.id, outcome.ending])
            inWindow outcomes).flatten) ∧
      List.Forall₂ (fun candidate outcome => outcome.IsToldBy candidate outcome.ending) inWindow
        outcomes := by
  obtain ⟨state, made, told, ⟨candidates, outcomes, cache'⟩, held,
    ⟨reply, segments, tellings, listed, rfl, rfl, course⟩, ran⟩ :=
      auditFound_proceeds network settings domain date cache world
  have answer : (Log.search (World.send network) settings domain world).1 =
      Log.candidatesOf (Log.searchRequest settings domain).url reply := by
    rw [held.reply_of_cons]
    rfl
  dsimp only at listed course ran
  rw [listed, found_eq] at course ran
  rw [course.tellings_eq, searchEvents_eq] at ran
  rw [answer]
  exact ⟨outcomes, cache', _, ran, rfl, rfl, course.forall₂ CandidateCourse.isToldBy⟩

/-- In every world, whatever the network answers and the disk does, the events of an audit are
those of the search, two for each candidate that is valid on the date, of which the second says
what its outcome says, and those of the saved files. An audit fails if and only if saving does. -/
theorem run_events (network : Network State) (settings : Settings) (domain : String)
    (date : Date) (cache : IssuerCache) (world : World State) :
    let audit := run (World.environment network) settings domain date cache world
    let listed := (Log.search (World.send network) settings domain world).1
    let candidates := listed.toOption.getD []
    let inWindow := candidates.filter fun candidate =>
      candidate.notBefore ≤ date ∧ date ≤ candidate.notAfter
    let outcomes := (auditFound (World.environment network) settings domain date cache world).1.2.1
    let stored := (save FileTree.disk settings.directory domain date (acceptedDers outcomes)
      world.files).1
    audit.2.events = world.events ++ ([.searchStarted] ++ failureEvents listed ++
      [.searchComplete candidates.length inWindow.length] ++
      (List.zipWith (fun candidate outcome => [.fetching candidate.id, outcome.ending]) inWindow
        outcomes).flatten ++ savedEvents (audit.1.1.map Report.saved)) ∧
    List.Forall₂ (fun candidate outcome => outcome.IsToldBy candidate outcome.ending) inWindow
      outcomes ∧
    (∀ error, audit.1.1 = .error error ↔ stored = .error error) ∧
    ∀ report, audit.1.1 = .ok report → report.outcomes = outcomes ∧ stored = .ok report.saved := by
  obtain ⟨outcomes, cache', world', begun, sameFiles, events, told⟩ :=
    auditFound_apply network settings domain date cache world
  rcases stored : save FileTree.disk settings.directory domain date (acceptedDers outcomes)
    world'.files with ⟨saved, files'⟩
  rw [run_eq_bind, World.bind_apply, begun,
    saveFound_apply network settings domain date _ outcomes cache' world' stored]
  rw [sameFiles] at stored
  dsimp only
  rw [stored, events]
  refine ⟨?_, told, ?_, ?_⟩
  · cases saved <;> simp [savedEvents, Except.map]
  · intro error
    cases saved <;> simp [Except.map]
  · intro report ended
    cases saved with
    | error error => cases ended
    | ok paths =>
        cases ended
        exact ⟨rfl, rfl⟩

end Audit

end CertificateAudit
