import CertificateAudit.Proofs.Audit.Report

/-!
Keeping issuers changes nothing that can be seen. `runPlain` is an audit without a cache, read
off the answers of a steady network. `IssuerCache.IsFaithful` says that every kept issuer is the
one that a fresh request would bring; every course with a faithful cache ends as the audit
without one does, and all caches of an auditor are faithful.
-/

namespace CertificateAudit

open CertificateAudit.Audit CertificateAudit.Calendar CertificateAudit.Http
open CertificateAudit.Store CertificateAudit.Text

variable {State : Type} {answers : Request → Reply}

namespace Audit

/-- Every exchange had the answer that there is for its request. -/
def Answered (answers : Request → Reply) (exchanges : List Exchange) : Prop :=
  ∀ exchange ∈ exchanges, exchange.reply = answers exchange.request

namespace Answered

variable {earlier later : List Exchange} {request : Request} {reply : Reply}

theorem append (before : Answered answers earlier) (behind : Answered answers later) :
    Answered answers (earlier ++ later) := by
  intro exchange membership
  rcases List.mem_append.mp membership with first | second
  · exact before exchange first
  · exact behind exchange second

theorem of_append (both : Answered answers (earlier ++ later)) :
    Answered answers earlier ∧ Answered answers later := by
  refine ⟨?_, ?_⟩
  · intro exchange membership
    exact both exchange (List.mem_append_left later membership)
  · intro exchange membership
    exact both exchange (List.mem_append_right earlier membership)

theorem of_cons (all : Answered answers (⟨request, reply⟩ :: later)) :
    reply = answers request ∧ Answered answers later := by
  refine ⟨all _ List.mem_cons_self, ?_⟩
  intro exchange membership
  exact all exchange (List.mem_cons_of_mem _ membership)

end Answered

theorem Lifetime.answered {network : Network State} {settings : Settings} {cache : IssuerCache}
    {world : World State} (steady : network.IsSteady answers)
    (life : Lifetime network settings cache world) : Answered answers world.exchanges := by
  induction life with
  | start =>
      intro exchange membership
      cases membership
  | meanwhile _ inductionHypothesis => exact inductionHypothesis
  | @audit cache world domain date result cache' world' _ ran inductionHypothesis =>
      obtain ⟨state, made, told, result, cache', files', held, _, same⟩ :=
        run_course network settings domain date cache world
      rw [ran] at same
      cases same
      exact inductionHypothesis.append (held.reply_of_steady steady)

end Audit

/-- Every kept issuer is the one that a request for it would bring now. -/
def IssuerCache.IsFaithful (answers : Request → Reply) (cache : IssuerCache) : Prop :=
  ∀ {url issuer}, cache.find? url = some issuer →
    Issuer.ofReply url (answers (Issuer.request url)) = .ok issuer

/-- A cache is faithful if all exchanges so far had the answers that there still are. -/
theorem IssuerCache.IsBacked.isFaithful {caching : Bool} {past : List Exchange}
    {cache : IssuerCache} (backed : cache.IsBacked caching past)
    (answered : Answered answers past) : cache.IsFaithful answers := by
  intro url issuer found
  obtain ⟨body, ⟨⟨request, reply⟩, membership, rfl, served⟩, decoded⟩ := backed.brought found
  have answer := answered _ membership
  exact Issuer.ofReply_eq_ok_iff.mpr
    ⟨body, ⟨_, List.mem_singleton_self _, rfl, by rw [← answer]; exact served⟩, decoded⟩

/-- The issuer of a certificate, asked for anew. -/
def Certificate.issuerFrom (answers : Request → Reply) (certificate : Certificate) :
    Except RevocationError Issuer :=
  match certificate.location .caIssuers with
  | .error error => .error error
  | .ok url => Issuer.ofReply url (answers (Issuer.request url))

theorem IssuerCourse.eq_issuerFrom {certificate : Certificate} {cache cache' : IssuerCache}
    {made : List Exchange} {result : Except RevocationError Issuer}
    (course : IssuerCourse certificate cache made result cache')
    (faithful : cache.IsFaithful answers) (answered : Answered answers made) :
    result = certificate.issuerFrom answers := by
  cases course with
  | unlocated located => rw [Certificate.issuerFrom, located]
  | known located found =>
      rw [Certificate.issuerFrom, located]
      exact (faithful found).symm
  | failed located _ decoded =>
      obtain ⟨rfl, _⟩ := answered.of_cons
      rw [Certificate.issuerFrom, located]
      exact decoded.symm
  | fetched located _ decoded =>
      obtain ⟨rfl, _⟩ := answered.of_cons
      rw [Certificate.issuerFrom, located]
      exact decoded.symm

namespace Revocation

/-- The status of a certificate, found out without a cache. -/
def statusFrom (answers : Request → Reply) (der : List UInt8) :
    Except RevocationError Ocsp.CertStatus :=
  match Certificate.ofDer? der with
  | none => .error .badCertificate
  | some certificate =>
      match certificate.location .ocsp, certificate.issuerFrom answers with
      | .error error, _ => .error error
      | .ok _, .error error => .error error
      | .ok url, .ok issuer =>
          match Certificate.ofDer? issuer.der with
          | none => .error .badIssuer
          | some issuerCertificate =>
              statusOf url certificate.serial
                (answers (responderRequest url (Ocsp.request certificate issuerCertificate)))

theorem StatusCourse.eq_statusFrom {der : List UInt8} {cache cache' : IssuerCache}
    {made : List Exchange} {status : Except RevocationError Ocsp.CertStatus}
    (course : StatusCourse der cache made status cache')
    (faithful : cache.IsFaithful answers) (answered : Answered answers made) :
    status = statusFrom answers der := by
  cases course with
  | unreadable read => rw [statusFrom, read]
  | noResponder read located => simp only [statusFrom, read, located]
  | noIssuer read located resolved =>
      have unresolved := resolved.eq_issuerFrom faithful answered
      simp only [statusFrom, read, located, ← unresolved]
  | badIssuer read located resolved decoded =>
      have issuer := resolved.eq_issuerFrom faithful answered
      simp only [statusFrom, read, located, ← issuer, decoded]
  | asked read located resolved decoded =>
      obtain ⟨earlier, last⟩ := answered.of_append
      obtain ⟨rfl, _⟩ := last.of_cons
      have issuer := resolved.eq_issuerFrom faithful earlier
      simp only [statusFrom, read, located, ← issuer, decoded]

end Revocation

namespace Audit

variable {settings : Settings} {domain : String} {date : Date} {cache cache' : IssuerCache}
  {past : List Exchange} {caching : Bool}

/-- The outcome and the events of a candidate that is audited alone and without a cache. -/
def auditAlone (answers : Request → Reply) (settings : Settings) (date : Date)
    (candidate : Candidate) : Outcome × List Event :=
  let request := Log.bodyRequest settings candidate.id
  match Log.recordOf request.url candidate (answers request) with
  | .error error =>
      (.skipped candidate error.message,
        [.fetching candidate.id, .fetchFailed candidate.id error.message])
  | .ok record =>
      let verdict := Revocation.verdictFor date (Revocation.statusFrom answers record.der)
      (.ofVerdict record verdict,
        [.fetching candidate.id, .verdictReached record.id record.subject verdict])

theorem CandidateCourse.eq_auditAlone {candidate : Candidate} {made : List Exchange}
    {told : List Event} {outcome : Outcome}
    (course : CandidateCourse settings date candidate cache made told outcome cache')
    (faithful : cache.IsFaithful answers) (answered : Answered answers made) :
    (outcome, told) = auditAlone answers settings date candidate := by
  cases course with
  | skipped read =>
      obtain ⟨rfl, _⟩ := answered.of_cons
      simp only [auditAlone, read]
  | judged read found =>
      obtain ⟨rfl, others⟩ := answered.of_cons
      have status := found.eq_statusFrom faithful others
      simp only [auditAlone, read, ← status]

/-- The simulation: a faithful cache stays faithful from candidate to candidate, so each of them
ends as it does alone. -/
theorem AuditCourse.eq_auditAlone {candidates : List Candidate}
    {segments : List (List Exchange)} {tellings : List (List Event)} {outcomes : List Outcome}
    (course : AuditCourse settings date candidates cache segments tellings outcomes cache')
    (backed : cache.IsBacked caching past) (before : Answered answers past)
    (answered : Answered answers segments.flatten) :
    outcomes = candidates.map (fun candidate => (auditAlone answers settings date candidate).1) ∧
      tellings = candidates.map fun candidate =>
        (auditAlone answers settings date candidate).2 := by
  induction course generalizing past with
  | done => exact ⟨rfl, rfl⟩
  | next single _ inductionHypothesis =>
      obtain ⟨own, others⟩ := Answered.of_append answered
      have alone := single.eq_auditAlone (backed.isFaithful before) own
      obtain ⟨sameOutcomes, sameTellings⟩ :=
        inductionHypothesis (single.backed backed) (before.append own) others
      rw [List.map_cons, List.map_cons, ← alone, sameOutcomes, sameTellings]
      exact ⟨rfl, rfl⟩

/-- A whole audit without a cache: its result, its events, and the files at its end. -/
def runPlain (answers : Request → Reply) (settings : Settings) (domain : String) (date : Date)
    (files : FileTree) : Except SaveError Report × List Event × FileTree :=
  let reply := answers (Log.searchRequest settings domain)
  let candidates := found settings domain reply
  let inWindow := candidates.filter fun candidate =>
    candidate.notBefore ≤ date ∧ date ≤ candidate.notAfter
  let outcomes := inWindow.map fun candidate => (auditAlone answers settings date candidate).1
  let tellings := inWindow.map fun candidate => (auditAlone answers settings date candidate).2
  let (saved, files) :=
    save FileTree.disk settings.directory domain date (acceptedDers outcomes) files
  (saved.map fun paths => {
      domain
      date
      totalCandidates := candidates.length
      inWindow := inWindow.length
      outcomes
      saved := paths },
    searchEvents settings domain reply ++
      .searchComplete candidates.length inWindow.length ::
        (tellings.flatten ++ savedEvents saved),
    files)

theorem RunCourse.eq_runPlain {files files' : FileTree} {made : List Exchange}
    {told : List Event} {result : Except SaveError Report}
    (course : RunCourse settings domain date cache files made told result cache' files')
    (backed : cache.IsBacked caching past) (before : Answered answers past)
    (answered : Answered answers made) :
    (result, told, files') = runPlain answers settings domain date files := by
  cases course with
  | @ended reply _ _ segments tellings outcomes _ saved _ listed valid audited stored =>
      obtain ⟨isAnswer, others⟩ := Answered.of_cons answered
      have searched : Answered answers [searchExchange settings domain reply] := by
        intro exchange membership
        cases List.mem_singleton.mp membership
        exact isAnswer
      obtain ⟨rfl, rfl⟩ :=
        audited.eq_auditAlone (backed.extend _) (before.append searched) others
      have same : reply = answers (Log.searchRequest settings domain) := isAnswer
      subst listed valid same
      simp only [runPlain, stored]

theorem runPlain_outcomes {files : FileTree} {report : Report}
    (ended : (runPlain answers settings domain date files).1 = .ok report) :
    let candidates := found settings domain (answers (Log.searchRequest settings domain))
    let inWindow := candidates.filter fun candidate =>
      candidate.notBefore ≤ date ∧ date ≤ candidate.notAfter
    report.outcomes =
      inWindow.map fun candidate => (auditAlone answers settings date candidate).1 := by
  unfold runPlain at ended
  dsimp only at ended
  split at ended
  next saved _ _ =>
    cases saved with
    | error error => cases ended
    | ok paths =>
        cases ended
        rfl

theorem auditCandidate_eq_auditAlone {network : Network State}
    (steady : network.IsSteady answers) (candidate : Candidate) (kept : Bool)
    (elsewhere : World State) :
    (auditCandidate (World.environment network) settings date candidate { enabled := kept }
      elsewhere).1.1 = (auditAlone answers settings date candidate).1 := by
  obtain ⟨_, made, told, ⟨outcome, later⟩, held, course, ran⟩ :=
    auditCandidate_proceeds network settings date candidate { enabled := kept } elsewhere
  have fresh : (IssuerCache.mk kept []).IsFaithful answers :=
    (IssuerCache.IsBacked.empty kept []).isFaithful (by simp [Answered])
  have alone := course.eq_auditAlone fresh (held.reply_of_steady steady)
  rw [ran, ← alone]

theorem auditAll_eq_auditAlone {network : Network State} (steady : network.IsSteady answers)
    (backed : cache.IsBacked caching past) (before : Answered answers past)
    (candidates : List Candidate) (world : World State) :
    (auditAll (World.environment network) settings date candidates cache world).1.1 =
      candidates.map fun candidate => (auditAlone answers settings date candidate).1 := by
  obtain ⟨_, _, _, ⟨outcomes, _⟩, held, ⟨segments, tellings, rfl, rfl, course⟩, ran⟩ :=
    auditAll_proceeds network settings date candidates cache world
  rw [ran]
  exact (course.eq_auditAlone backed before (held.reply_of_steady steady)).1

/-- Whether issuers are kept makes no difference. Over a steady network take an auditor that
keeps them and one that does not, or any two, each somewhere in its life and with the same files
on its disk. Their audits give the same result, tell the same events and leave the same files.
The outcomes of any candidates are those that each of them has when it is audited alone, in any
world and with an empty cache. -/
theorem run_indifferent_to_cache {network : Network State} {settings : Settings}
    {caching caching' : Bool} {cache cache' : IssuerCache} {world world' : World State}
    (steady : network.IsSteady answers)
    (life : Lifetime network { settings with cacheIssuers := caching } cache world)
    (life' : Lifetime network { settings with cacheIssuers := caching' } cache' world')
    (sameFiles : world.files = world'.files) (domain : String) (date : Date) :
    let audit := run (World.environment network) { settings with cacheIssuers := caching } domain
      date cache world
    let audit' := run (World.environment network) { settings with cacheIssuers := caching' }
      domain date cache' world'
    audit.1.1 = audit'.1.1 ∧
    audit.2.files = audit'.2.files ∧
    (∃ told, audit.2.events = world.events ++ told ∧ audit'.2.events = world'.events ++ told) ∧
    ∃ alone : Candidate → Outcome,
      (∀ (candidate : Candidate) (kept : Bool) (elsewhere : World State),
        (auditCandidate (World.environment network) settings date candidate { enabled := kept }
          elsewhere).1.1 = alone candidate) ∧
      (∀ candidates : List Candidate,
        (auditAll (World.environment network) settings date candidates cache world).1.1 =
          candidates.map alone) ∧
      let candidates := found settings domain (answers (Log.searchRequest settings domain))
      let inWindow := candidates.filter fun candidate =>
        candidate.notBefore ≤ date ∧ date ≤ candidate.notAfter
      ∀ report, audit.1.1 = .ok report → report.outcomes = inWindow.map alone := by
  obtain ⟨state, made, told, result, last, files, held, course, ran⟩ :=
    run_course network { settings with cacheIssuers := caching } domain date cache world
  obtain ⟨state', made', told', result', last', files', held', course', ran'⟩ :=
    run_course network { settings with cacheIssuers := caching' } domain date cache' world'
  have plain := course.eq_runPlain life.backed (life.answered steady)
    (held.reply_of_steady steady)
  have plain' := course'.eq_runPlain life'.backed (life'.answered steady)
    (held'.reply_of_steady steady)
  -- An audit without a cache does not ask whether there is to be one.
  have same : (result, told, files) = (result', told', files') := by
    rw [plain, plain', sameFiles]
    rfl
  cases same
  refine ⟨?_, ?_, ⟨told, ?_, ?_⟩, fun candidate => (auditAlone answers settings date candidate).1,
    ?_, ?_, ?_⟩
  · rw [ran, ran']
  · rw [ran, ran']
  · rw [ran]
    rfl
  · rw [ran']
    rfl
  · exact auditCandidate_eq_auditAlone steady
  · intro candidates
    exact auditAll_eq_auditAlone steady life.backed (life.answered steady) candidates world
  · intro candidates inWindow report ended
    rw [ran] at ended
    have given : (runPlain answers { settings with cacheIssuers := caching } domain date
        world.files).1 = .ok report := by
      rw [← plain]
      exact ended
    exact runPlain_outcomes given

def twinListing : String :=
  "[[7,null,null,\"2024-01-01T00:00:00\",\"2024-12-31T00:00:00\",null]," ++
    "[8,null,null,\"2024-01-01T00:00:00\",\"2024-12-31T00:00:00\",null]]"

/-- The sample network with two candidates that are served the same certificate. -/
def twinNetwork : Network Unit where
  answer request state :=
    if request = Log.searchRequest {} "example.com" then
      (.ok ⟨200, some (Utf8.encode twinListing.toList)⟩, state)
    else if request = Log.bodyRequest {} 8 then sampleNetwork.answer (Log.bodyRequest {} 7) state
    else sampleNetwork.answer request state

/-- Its audit by an auditor that keeps issuers or does not. -/
def twinAudit (settings : Settings) (kept : Bool) :
    (Except SaveError Report × IssuerCache) × World Unit :=
  run (World.environment twinNetwork) { settings with cacheIssuers := kept } "example.com"
    sampleDate { enabled := kept } { network := (), files := {} }

theorem twinAudit_seen :
    ((twinAudit {} true).1.1.toOption.map fun report =>
      report.outcomes.map fun outcome => outcome.accepted?.isSome) = some [true, true] ∧
    (twinAudit {} true).2.exchanges.length = 6 ∧ (twinAudit {} false).2.exchanges.length = 7 := by
  decide +kernel

/-- The auditor that keeps issuers gets the one of both certificates once, the other one twice;
their reports are the same. -/
theorem run_indifferent_to_cache_sample :
    ∃ (answers : Request → Reply) (report : Report),
      twinNetwork.IsSteady answers ∧
      Lifetime twinNetwork { cacheIssuers := true } { enabled := true }
        { network := (), files := {} } ∧
      Lifetime twinNetwork { cacheIssuers := false } { enabled := false }
        { network := (), files := {} } ∧
      (twinAudit {} true).2.exchanges.length = 6 ∧ (twinAudit {} false).2.exchanges.length = 7 ∧
      (twinAudit {} true).1.1 = .ok report ∧ (twinAudit {} false).1.1 = .ok report ∧
      report.outcomes.map (fun outcome => outcome.accepted?.isSome) = [true, true] := by
  obtain ⟨seen, once, twice⟩ := twinAudit_seen
  have steady : twinNetwork.IsSteady fun request => (twinNetwork.answer request ()).1 := by
    intro request state
    rfl
  have life (settings : Settings) (kept : Bool) :
      Lifetime twinNetwork { settings with cacheIssuers := kept } { enabled := kept }
        { network := (), files := {} } :=
    .start
  -- For all settings, since with a variable here the audits are not evaluated.
  have same (settings : Settings) :
      (twinAudit settings true).1.1 = (twinAudit settings false).1.1 := by
    unfold twinAudit
    have indifferent := @run_indifferent_to_cache _ _ _ settings true false _ _ _ _ steady
      (life settings true) (life settings false) rfl "example.com" sampleDate
    exact indifferent.1
  obtain ⟨report, ended, accepted⟩ := exists_report_of_map seen
  exact ⟨_, report, steady, life {} true, life {} false, once, twice, ended,
    (same {}).symm.trans ended, accepted⟩

end Audit

end CertificateAudit
