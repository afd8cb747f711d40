import CertificateAudit.Proofs.Audit.Report
import CertificateAudit.Proofs.Audit.Transparency

/-!
One candidate audited for two dates. The date decides nothing but on which side of it a
revocation lies: `outcomes_on_two_dates` says that all else about the two outcomes is the same,
and that a candidate accepted on the later date is accepted on the earlier one.
-/

namespace CertificateAudit

open CertificateAudit.Audit CertificateAudit.Calendar CertificateAudit.Http
open CertificateAudit.Store

variable {State : Type} {answers : Request → Reply}

/-- The day of the revocation and its reason, whether it counts on the audit date or not. -/
def Verdict.revocation? : Verdict → Option (Date × Option String)
  | .revokedBefore revokedOn reason | .revokedLater revokedOn reason => some (revokedOn, reason)
  | .good | .unknown _ => none

namespace Outcome

def record? : Outcome → Option Record
  | .accepted record _ | .rejected record _ => some record
  | .skipped _ _ => none

def verdict? : Outcome → Option Verdict
  | .accepted _ verdict | .rejected _ verdict => some verdict
  | .skipped _ _ => none

/-- How the outcomes of one candidate on an earlier and on a later date go together. -/
structure Agrees (first second : Outcome) : Prop where
  record : first.record? = second.record?
  skipped : ∀ candidate reason,
    first = .skipped candidate reason ↔ second = .skipped candidate reason
  unknown : ∀ reason,
    first.verdict? = some (.unknown reason) ↔ second.verdict? = some (.unknown reason)
  good : first.verdict? = some .good ↔ second.verdict? = some .good
  revocation : first.verdict?.bind Verdict.revocation? = second.verdict?.bind Verdict.revocation?
  accepted : second.IsAccepted → first.IsAccepted

theorem Agrees.refl (outcome : Outcome) : outcome.Agrees outcome :=
  ⟨rfl, fun _ _ => .rfl, fun _ => .rfl, .rfl, rfl, id⟩

end Outcome

theorem Calendar.Date.lt_of_le_of_lt {first second third : Date} (before : first ≤ second)
    (behind : second < third) : first < third :=
  Int.lt_of_le_of_lt before behind

/-- A later date can only turn a revocation that is to come into one that has come. -/
theorem Verdict.ofStatus_on_two_dates {earlier later : Date} (ordered : earlier ≤ later)
    (status : Ocsp.CertStatus) :
    ofStatus status earlier = ofStatus status later ∨
      ∃ revokedOn reason, ofStatus status earlier = .revokedLater revokedOn reason ∧
        ofStatus status later = .revokedBefore revokedOn reason := by
  cases status with
  | good => exact .inl rfl
  | unknown => exact .inl rfl
  | revoked time reason =>
      by_cases toCome : later < time.date
      · left
        have stillToCome := Date.lt_of_le_of_lt ordered toCome
        simp only [ofStatus, toCome, stillToCome, if_true]
      · by_cases between : earlier < time.date
        · right
          exact ⟨time.date, reason, if_pos between, if_neg toCome⟩
        · left
          simp only [ofStatus, toCome, between, if_false]

theorem Outcome.agrees_ofVerdict {earlier later : Date} (ordered : earlier ≤ later)
    (record : Record) (status : Except RevocationError Ocsp.CertStatus) :
    (ofVerdict record (Revocation.verdictFor earlier status)).Agrees
      (ofVerdict record (Revocation.verdictFor later status)) := by
  cases status with
  | error error => exact .refl _
  | ok status =>
      simp only [Revocation.verdictFor, Except.map, Revocation.verdictOf]
      rcases Verdict.ofStatus_on_two_dates ordered status with
        same | ⟨revokedOn, reason, toCome, hasCome⟩
      · rw [same]
        exact .refl _
      · rw [toCome, hasCome]
        constructor <;>
          simp [ofVerdict, Verdict.isValid, record?, verdict?, Verdict.revocation?, IsAccepted]

namespace Audit

variable {settings : Settings} {domain : String} {date : Date}

theorem auditAlone_agrees {earlier later : Date} (ordered : earlier ≤ later)
    (candidate : Candidate) :
    (auditAlone answers settings earlier candidate).1.Agrees
      (auditAlone answers settings later candidate).1 := by
  unfold auditAlone
  dsimp only
  split
  · exact .refl _
  · exact Outcome.agrees_ofVerdict ordered _ _

/-- Over a steady network the outcomes in a report are those of the candidates one by one. -/
theorem outcomes_eq_auditAlone {network : Network State} {cache : IssuerCache}
    {world : World State} {report : Report} (steady : network.IsSteady answers)
    (life : Lifetime network settings cache world)
    (ended : (run (World.environment network) settings domain date cache world).1.1 =
      .ok report) :
    let candidates := found settings domain (answers (Log.searchRequest settings domain))
    let inWindow := candidates.filter fun candidate =>
      candidate.notBefore ≤ date ∧ date ≤ candidate.notAfter
    report.outcomes =
      inWindow.map fun candidate => (auditAlone answers settings date candidate).1 := by
  obtain ⟨state, made, told, result, last, files, held, course, ran⟩ :=
    run_course network settings domain date cache world
  have plain := course.eq_runPlain life.backed (life.answered steady)
    (held.reply_of_steady steady)
  have given : (runPlain answers settings domain date world.files).1 = .ok report := by
    rw [← plain, ← ended, ran]
  exact runPlain_outcomes given

/-- Take two audits of a domain over a steady network that both end with a report, for an
earlier and for a later date, by auditors anywhere in their lives. A candidate that is valid on
both dates has an outcome in each report, and the two outcomes agree. -/
theorem outcomes_on_two_dates {network : Network State} {cache cache' : IssuerCache}
    {world world' : World State} {earlier later : Date} {report report' : Report}
    (steady : network.IsSteady answers) (ordered : earlier ≤ later)
    (life : Lifetime network settings cache world)
    (life' : Lifetime network settings cache' world')
    (ended : (run (World.environment network) settings domain earlier cache world).1.1 =
      .ok report)
    (ended' : (run (World.environment network) settings domain later cache' world').1.1 =
      .ok report') :
    let candidates := found settings domain (answers (Log.searchRequest settings domain))
    let inWindow := fun date : Date => candidates.filter fun candidate =>
      candidate.notBefore ≤ date ∧ date ≤ candidate.notAfter
    ∀ (candidate : Candidate) (index index' : Nat),
      (inWindow earlier)[index]? = some candidate →
      (inWindow later)[index']? = some candidate →
      ∃ first second, report.outcomes[index]? = some first ∧
        report'.outcomes[index']? = some second ∧ first.Agrees second := by
  intro candidates inWindow candidate index index' chosen chosen'
  rw [outcomes_eq_auditAlone steady life ended, outcomes_eq_auditAlone steady life' ended',
    List.getElem?_map, List.getElem?_map, chosen, chosen']
  exact ⟨_, _, rfl, rfl, auditAlone_agrees ordered candidate⟩

/-- A responder's answer: the certificate with the serial number 7 was revoked on June 15, 2024. -/
def revokedAnswer : List UInt8 :=
  [0x30, 0x34, 0x0a, 0x01, 0x00, 0xa0, 0x2f, 0x30, 0x2d, 0x06, 0x09, 0x2b, 0x06, 0x01, 0x05, 0x05,
    0x07, 0x30, 0x01, 0x01, 0x04, 0x20, 0x30, 0x1e, 0x30, 0x1c, 0x30, 0x1a, 0x30, 0x18, 0x30,
    0x03, 0x02, 0x01, 0x07, 0xa1, 0x11, 0x18, 0x0f, 0x32, 0x30, 0x32, 0x34, 0x30, 0x36, 0x31,
    0x35, 0x30, 0x30, 0x30, 0x30, 0x30, 0x30, 0x5a]

/-- The sample network with a responder that reports a revocation. -/
def revokingNetwork : Network Unit where
  answer request state :=
    if request.method = .post then (.ok ⟨200, some revokedAnswer⟩, state)
    else sampleNetwork.answer request state

def dateAfterRevocation : Date :=
  (Date.ofParts? 2024 7 1).get rfl

def sampleCandidate : Candidate where
  id := 7
  notBefore := (Date.ofParts? 2024 1 1).get rfl
  notAfter := (Date.ofParts? 2024 12 31).get rfl
  commonName := none
  issuerName := none
  serialNumber := none

theorem revokingNetwork_found :
    found {} "example.com" (revokingNetwork.answer (Log.searchRequest {} "example.com") ()).1 =
      [sampleCandidate] := by
  decide +kernel

theorem revokingNetwork_accepts :
    (run (World.environment revokingNetwork) {} "example.com" sampleDate { enabled := true }
        { network := (), files := {} }).1.1.toOption.map (fun report =>
          report.outcomes.map fun outcome => outcome.accepted?.isSome) = some [true] ∧
      (run (World.environment revokingNetwork) {} "example.com" dateAfterRevocation
        { enabled := true } { network := (), files := {} }).1.1.toOption.map (fun report =>
          report.outcomes.map fun outcome => outcome.accepted?.isSome) = some [false] := by
  decide +kernel

/-- The certificate is accepted on June 1, two weeks before its revocation, and not on July 1. -/
theorem outcomes_on_two_dates_sample :
    sampleDate ≤ dateAfterRevocation ∧
    ∃ report report' first second,
      (run (World.environment revokingNetwork) {} "example.com" sampleDate { enabled := true }
        { network := (), files := {} }).1.1 = .ok report ∧
      (run (World.environment revokingNetwork) {} "example.com" dateAfterRevocation
        { enabled := true } { network := (), files := {} }).1.1 = .ok report' ∧
      report.outcomes[0]? = some first ∧ report'.outcomes[0]? = some second ∧
      first.accepted?.isSome = true ∧ second.accepted?.isSome = false ∧ first.Agrees second := by
  have ordered : sampleDate ≤ dateAfterRevocation := by decide
  have steady : revokingNetwork.IsSteady fun request => (revokingNetwork.answer request ()).1 := by
    intro request state
    rfl
  have life : Lifetime revokingNetwork {} { enabled := true } { network := (), files := {} } :=
    .start
  obtain ⟨report, ended, accepts⟩ := exists_report_of_map revokingNetwork_accepts.1
  obtain ⟨report', ended', accepts'⟩ := exists_report_of_map revokingNetwork_accepts.2
  obtain ⟨first, second, isFirst, isSecond, agrees⟩ :=
    outcomes_on_two_dates steady ordered life life ended ended' sampleCandidate 0 0
      (by rw [revokingNetwork_found]; rfl) (by rw [revokingNetwork_found]; rfl)
  have accepted := congrArg (fun list => list[0]?) accepts
  have rejected := congrArg (fun list => list[0]?) accepts'
  simp only [List.getElem?_map, isFirst, isSecond, Option.map_some,
    List.getElem?_cons_zero, Option.some.injEq] at accepted rejected
  exact ⟨ordered, report, report', first, second, ended, ended', isFirst, isSecond, accepted,
    rejected, agrees⟩

end Audit

end CertificateAudit
