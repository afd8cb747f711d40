import CertificateAudit.Proofs.Audit.Acceptance
import CertificateAudit.Proofs.Store.Save

/-!
What a report says is so. `run_eq_ok` takes apart an audit that ends with a report;
`report_exact` compares the report with the answer to the search, with the date and with the
files that are there afterwards.
-/

namespace CertificateAudit

open CertificateAudit.Audit CertificateAudit.Calendar CertificateAudit.Http
open CertificateAudit.Store

variable {State : Type}

theorem Calendar.Date.not_lt_iff {date other : Date} : ¬ date < other ↔ other ≤ date :=
  Int.not_lt

namespace Outcome

/-- The outcome is that of the candidate. A record has the number and the dates of the candidate
that it was fetched for. -/
def IsOf (candidate : Candidate) : Outcome → Prop
  | .accepted record _ | .rejected record _ =>
      record.id = candidate.id ∧ record.notBefore = candidate.notBefore ∧
        record.notAfter = candidate.notAfter
  | .skipped other _ => other = candidate

/-- The verdict of the outcome bears it out for the date. -/
def IsBorneOut (date : Date) : Outcome → Prop
  | .accepted _ verdict =>
      verdict = .good ∨
        ∃ revokedOn reason, verdict = .revokedLater revokedOn reason ∧ date < revokedOn
  | .rejected _ verdict =>
      (∃ reason, verdict = .unknown reason) ∨
        ∃ revokedOn reason, verdict = .revokedBefore revokedOn reason ∧ revokedOn ≤ date
  | .skipped _ _ => True

theorem isOf_ofVerdict {candidate : Candidate} {record : Record} {verdict : Verdict} :
    (ofVerdict record verdict).IsOf candidate ↔
      record.id = candidate.id ∧ record.notBefore = candidate.notBefore ∧
        record.notAfter = candidate.notAfter := by
  unfold ofVerdict
  split <;> rfl

theorem isBorneOut_ofVerdict (date : Date) (record : Record)
    (status : Except RevocationError Ocsp.CertStatus) :
    (ofVerdict record (Revocation.verdictFor date status)).IsBorneOut date := by
  rcases status with error | _ | ⟨time, reason⟩ | _
  · exact .inl ⟨_, rfl⟩
  · exact .inl rfl
  · by_cases later : date < time.date
    · have verdict : Revocation.verdictFor date (.ok (.revoked time reason)) =
          .revokedLater time.date reason := if_pos later
      rw [verdict]
      exact .inr ⟨time.date, reason, rfl, later⟩
    · have verdict : Revocation.verdictFor date (.ok (.revoked time reason)) =
          .revokedBefore time.date reason := if_neg later
      rw [verdict]
      exact .inr ⟨time.date, reason, rfl, Date.not_lt_iff.mp later⟩
  · exact .inl ⟨_, rfl⟩

end Outcome

namespace Audit

variable {settings : Settings} {domain : String} {date : Date} {cache cache' : IssuerCache}

namespace CandidateCourse

variable {candidate : Candidate} {made : List Exchange} {told : List Event} {outcome : Outcome}

theorem isOf (course : CandidateCourse settings date candidate cache made told outcome cache') :
    outcome.IsOf candidate := by
  cases course with
  | skipped => rfl
  | judged given _ =>
      obtain ⟨_, _, _, _, same⟩ := Log.recordOf_eq_ok_iff.mp given
      rw [same, Outcome.isOf_ofVerdict]
      exact ⟨rfl, rfl, rfl⟩

theorem isBorneOut
    (course : CandidateCourse settings date candidate cache made told outcome cache') :
    outcome.IsBorneOut date := by
  cases course with
  | skipped => trivial
  | judged => exact Outcome.isBorneOut_ofVerdict date _ _

end CandidateCourse

/-- What holds of every course of a candidate holds of all candidates and their outcomes. -/
theorem AuditCourse.forall₂ {related : Candidate → Outcome → Prop}
    {candidates : List Candidate} {segments : List (List Exchange)}
    {tellings : List (List Event)} {outcomes : List Outcome}
    (each : ∀ {candidate cache made told outcome cache'},
      CandidateCourse settings date candidate cache made told outcome cache' →
      related candidate outcome)
    (course : AuditCourse settings date candidates cache segments tellings outcomes cache') :
    List.Forall₂ related candidates outcomes := by
  induction course with
  | done => exact .nil
  | next single _ inductionHypothesis => exact .cons (each single) inductionHypothesis

/-- An audit that ends with a report has audited the candidates that are valid on the date, and
has saved those that it accepted. -/
theorem run_eq_ok {network : Network State} {world world' : World State} {report : Report}
    (ended : run (World.environment network) settings domain date cache world =
      ((.ok report, cache'), world')) :
    let candidates :=
      found settings domain (network.answer (Log.searchRequest settings domain) world.network).1
    let inWindow := candidates.filter fun candidate =>
      candidate.notBefore ≤ date ∧ date ≤ candidate.notAfter
    ∃ segments tellings,
      AuditCourse settings date inWindow cache segments tellings report.outcomes cache' ∧
      save FileTree.disk settings.directory domain date (acceptedDers report.outcomes)
        world.files = (.ok report.saved, world'.files) ∧
      report = {
        domain
        date
        totalCandidates := candidates.length
        inWindow := inWindow.length
        outcomes := report.outcomes
        saved := report.saved } := by
  obtain ⟨state, made, told, result, last, files, held, course, same⟩ :=
    run_course network settings domain date cache world
  rw [ended] at same
  cases course with
  | @ended reply candidates inWindow segments tellings outcomes _ saved _ listed valid audited
      stored =>
      cases saved with
      | error error => cases same
      | ok paths =>
          cases same
          subst listed valid
          rw [← held.reply_of_cons]
          exact ⟨segments, tellings, audited, stored, rfl⟩

/-- Every report is exact. It counts the candidates that the search gave and those of them that
are valid on the date, it has one outcome for each of the latter, in their order, and a path for
each accepted one, behind which its certificate can be read; and the verdicts say why. -/
theorem report_exact {network : Network State} {world world' : World State} {report : Report}
    (ended : run (World.environment network) settings domain date cache world =
      ((.ok report, cache'), world')) :
    let candidates :=
      found settings domain (network.answer (Log.searchRequest settings domain) world.network).1
    report.totalCandidates = candidates.length ∧
    report.inWindow = candidates.countP (fun candidate =>
      candidate.notBefore ≤ date ∧ date ≤ candidate.notAfter) ∧
    List.Forall₂ (fun candidate outcome => outcome.IsOf candidate)
      (candidates.filter fun candidate =>
        candidate.notBefore ≤ date ∧ date ≤ candidate.notAfter) report.outcomes ∧
    report.saved.length = report.outcomes.countP (fun outcome => outcome.accepted?.isSome) ∧
    report.saved.Nodup ∧
    List.Forall₂ (fun path record =>
      world'.files.readFile? path = some (certificateFile record.der))
      report.saved report.accepted ∧
    ∀ outcome ∈ report.outcomes, outcome.IsBorneOut date := by
  obtain ⟨segments, tellings, audited, stored, same⟩ := run_eq_ok ended
  obtain ⟨distinct, readable⟩ := save_eq_ok stored
  refine ⟨?_, ?_, audited.forall₂ CandidateCourse.isOf, ?_, distinct, ?_, ?_⟩
  · rw [same]
  · rw [same, List.countP_eq_length_filter]
  · rw [readable.length_eq, acceptedDers, List.length_map, List.length_filterMap_eq_countP]
  · rw [acceptedDers, List.forall₂_map_right_iff] at readable
    exact readable
  · intro outcome membership
    have each : List.Forall₂ (fun _ outcome => outcome.IsBorneOut date) _ report.outcomes :=
      audited.forall₂ CandidateCourse.isBorneOut
    obtain ⟨index, bound, rfl⟩ := List.getElem_of_mem membership
    exact each.get (each.length_eq ▸ bound) bound

/-- What is seen of a report was seen of one. -/
theorem exists_report_of_map {α : Type} {result : Except SaveError Report} {view : Report → α}
    {seen : α} (same : result.toOption.map view = some seen) :
    ∃ report, result = .ok report ∧ view report = seen := by
  cases result with
  | error error => cases same
  | ok report => exact ⟨report, rfl, Option.some.inj same⟩

theorem sampleNetwork_reports :
    ∃ report cache' world',
      run (World.environment sampleNetwork) {} "example.com" sampleDate { enabled := true }
        { network := (), files := {} } = ((.ok report, cache'), world') ∧
      report.outcomes.map (fun outcome => outcome.accepted?.isSome) = [true] := by
  have accepts := sampleNetwork_accepts
  rcases ended : run (World.environment sampleNetwork) {} "example.com" sampleDate
    { enabled := true } { network := (), files := {} } with ⟨⟨result, cache'⟩, world'⟩
  rw [ended] at accepts
  obtain ⟨report, rfl, accepted⟩ := exists_report_of_map accepts
  exact ⟨report, cache', world', rfl, accepted⟩

/-- The audit of the sample network saves one file, and the certificate can be read there. -/
theorem report_exact_sample :
    ∃ report cache' world' path record,
      run (World.environment sampleNetwork) {} "example.com" sampleDate { enabled := true }
        { network := (), files := {} } = ((.ok report, cache'), world') ∧
      report.saved = [path] ∧ report.accepted = [record] ∧
      world'.files.readFile? path = some (certificateFile record.der) := by
  obtain ⟨report, cache', world', ended, accepts⟩ := sampleNetwork_reports
  obtain ⟨_, _, _, counted, _, readable, _⟩ := report_exact ended
  have single : report.saved.length = 1 := by
    have one := congrArg (List.countP id) accepts
    rw [List.countP_map] at one
    exact counted.trans one
  obtain ⟨path, only⟩ := List.length_eq_one_iff.mp single
  obtain ⟨record, onlyRecord⟩ := List.length_eq_one_iff.mp (readable.length_eq.symm.trans single)
  rw [only, onlyRecord] at readable
  exact ⟨report, cache', world', path, record, ended, only, onlyRecord,
    (List.forall₂_cons.mp readable).1⟩

end Audit

end CertificateAudit
