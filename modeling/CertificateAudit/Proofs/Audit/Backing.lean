import CertificateAudit.Proofs.Audit.RunCourse

/-!
Where kept issuers come from. An auditor starts with an empty cache, and whatever its cache
holds later was brought by an exchange before: `Lifetime.backed`. The invariant `IsBacked` is
kept by every course of an audit.
-/

namespace CertificateAudit

open CertificateAudit.Audit CertificateAudit.Calendar CertificateAudit.Http
open CertificateAudit.Store

variable {State : Type}

namespace Audit

/-- The exchange was this request, answered with success and with this body. -/
def Exchange.Brings (exchange : Exchange) (request : Request) (body : List UInt8) : Prop :=
  exchange.request = request ∧
    ∃ status, isSuccess status = true ∧ exchange.reply = .ok ⟨status, some body⟩

/-- Among the exchanges is this request, answered with success and with this body. -/
def Brought (exchanges : List Exchange) (request : Request) (body : List UInt8) : Prop :=
  ∃ exchange ∈ exchanges, exchange.Brings request body

theorem Brought.append_left {earlier : List Exchange} {request : Request} {body : List UInt8}
    (brought : Brought earlier request body) (later : List Exchange) :
    Brought (earlier ++ later) request body := by
  obtain ⟨exchange, membership, brings⟩ := brought
  exact ⟨exchange, List.mem_append_left later membership, brings⟩

theorem Brought.append_right {later : List Exchange} {request : Request} {body : List UInt8}
    (brought : Brought later request body) (earlier : List Exchange) :
    Brought (earlier ++ later) request body := by
  obtain ⟨exchange, membership, brings⟩ := brought
  exact ⟨exchange, List.mem_append_right earlier membership, brings⟩

theorem bodyOf_eq_ok_iff {reply : Reply} {body : List UInt8} :
    bodyOf reply = .ok body ↔
      ∃ status, isSuccess status = true ∧ reply = .ok ⟨status, some body⟩ := by
  constructor
  · intro usable
    cases reply with
    | error error => simp [bodyOf] at usable
    | ok response =>
        obtain ⟨status, content⟩ := response
        by_cases success : isSuccess status = true
        · cases content with
          | none => simp [bodyOf, success] at usable
          | some content =>
              simp only [bodyOf, success, if_true, Except.ok.injEq] at usable
              exact ⟨status, success, by rw [usable]⟩
        · simp [bodyOf, success] at usable
  · rintro ⟨status, success, rfl⟩
    simp [bodyOf, success]

/-- An issuer that was served under a URL. -/
def IssuerBrought (exchanges : List Exchange) (url : String) (issuer : Issuer) : Prop :=
  ∃ body, Brought exchanges (Issuer.request url) body ∧ Issuer.decode url body = .ok issuer

end Audit

theorem Issuer.ofReply_eq_ok_iff {url : String} {reply : Reply} {issuer : Issuer} :
    Issuer.ofReply url reply = .ok issuer ↔
      IssuerBrought [⟨Issuer.request url, reply⟩] url issuer := by
  constructor
  · intro served
    unfold Issuer.ofReply at served
    cases usable : bodyOf reply with
    | error failure => simp [usable] at served
    | ok body =>
        rw [usable] at served
        refine ⟨body, ⟨_, List.mem_singleton_self _, rfl, ?_⟩, served⟩
        exact bodyOf_eq_ok_iff.mp usable
  · rintro ⟨body, ⟨exchange, membership, _, answered⟩, decoded⟩
    cases List.mem_singleton.mp membership
    have usable : bodyOf reply = .ok body := bodyOf_eq_ok_iff.mpr answered
    simp only [Issuer.ofReply, usable, decoded]

namespace IssuerCache

/-- Whether issuers are kept at all, and that the kept ones come from earlier exchanges. -/
structure IsBacked (caching : Bool) (history : List Exchange) (cache : IssuerCache) : Prop where
  enabled_eq : cache.enabled = caching
  brought : ∀ {url issuer}, cache.find? url = some issuer →
    IssuerBrought history url issuer

variable {caching : Bool} {history : List Exchange} {cache : IssuerCache}

theorem IsBacked.empty (caching : Bool) (history : List Exchange) :
    IsBacked caching history { enabled := caching } := by
  refine ⟨rfl, ?_⟩
  intro url issuer found
  cases caching <;> simp [find?] at found

theorem IsBacked.extend (backed : cache.IsBacked caching history) (made : List Exchange) :
    cache.IsBacked caching (history ++ made) := by
  refine ⟨backed.enabled_eq, ?_⟩
  intro url issuer found
  obtain ⟨body, brought, decoded⟩ := backed.brought found
  exact ⟨body, brought.append_left made, decoded⟩

theorem find?_keep {url other : String} {issuer kept : Issuer}
    (found : (cache.keep url kept).find? other = some issuer) :
    cache.find? other = some issuer ∨ (other = url ∧ issuer = kept) := by
  unfold keep find? at found
  unfold find?
  by_cases enabled : cache.enabled = true
  · simp only [enabled, if_true, List.lookup_append, Option.or_eq_some_iff] at found ⊢
    rcases found with present | ⟨_, added⟩
    · exact .inl present
    · by_cases same : other = url
      · rw [same, List.lookup_cons_self] at added
        exact .inr ⟨same, (Option.some.inj added).symm⟩
      · have differs : (other == url) = false := beq_eq_false_iff_ne.mpr same
        simp [List.lookup_cons, differs] at added
  · simp [enabled] at found

end IssuerCache

namespace IssuerCourse

variable {certificate : Certificate} {cache cache' : IssuerCache} {made past : List Exchange}
  {caching : Bool} {result : Except RevocationError Issuer}

theorem backed (course : IssuerCourse certificate cache made result cache')
    (before : cache.IsBacked caching past) : cache'.IsBacked caching (past ++ made) := by
  cases course with
  | unlocated => exact before.extend []
  | known => exact before.extend []
  | failed => exact before.extend _
  | @fetched url reply issuer located unknown served =>
      obtain ⟨body, brought, decoded⟩ := Issuer.ofReply_eq_ok_iff.mp served
      refine ⟨?_, ?_⟩
      · unfold IssuerCache.keep
        split <;> exact before.enabled_eq
      · intro other kept found
        rcases IssuerCache.find?_keep found with present | ⟨rfl, rfl⟩
        · exact (before.extend _).brought present
        · exact ⟨body, brought.append_right past, decoded⟩

/-- The issuer of a certificate was brought just now or, if issuers are kept, before. -/
theorem issuerBrought {issuer : Issuer}
    (course : IssuerCourse certificate cache made (.ok issuer) cache')
    (before : cache.IsBacked caching past) :
    ∃ url, certificate.location .caIssuers = .ok url ∧
      (IssuerBrought made url issuer ∨ (caching = true ∧ IssuerBrought past url issuer)) := by
  cases course with
  | @known url _ located found =>
      have enabled : caching = true := by
        rw [← before.enabled_eq]
        cases flag : cache.enabled with
        | true => rfl
        | false => simp [IssuerCache.find?, flag] at found
      exact ⟨url, located, .inr ⟨enabled, before.brought found⟩⟩
  | @fetched url reply _ located unknown served =>
      exact ⟨url, located, .inl (Issuer.ofReply_eq_ok_iff.mp served)⟩

theorem userAgent_eq_none (course : IssuerCourse certificate cache made result cache') :
    ∀ exchange ∈ made, exchange.request.userAgent = none ∧ exchange.request.method = .get := by
  intro exchange membership
  cases course with
  | unlocated => cases membership
  | known => cases membership
  | failed =>
      cases List.mem_singleton.mp membership
      exact ⟨rfl, rfl⟩
  | fetched =>
      cases List.mem_singleton.mp membership
      exact ⟨rfl, rfl⟩

end IssuerCourse

theorem Revocation.StatusCourse.backed {der : List UInt8} {cache cache' : IssuerCache}
    {made past : List Exchange} {caching : Bool} {status : Except RevocationError Ocsp.CertStatus}
    (course : StatusCourse der cache made status cache') (before : cache.IsBacked caching past) :
    cache'.IsBacked caching (past ++ made) := by
  cases course with
  | unreadable => exact before.extend []
  | noResponder => exact before.extend []
  | noIssuer _ _ resolved => exact resolved.backed before
  | badIssuer _ _ resolved => exact resolved.backed before
  | asked _ _ resolved =>
      rw [← List.append_assoc]
      exact (resolved.backed before).extend _

namespace Audit

variable {settings : Settings} {domain : String} {date : Date} {cache cache' : IssuerCache}
  {past : List Exchange} {caching : Bool}

theorem CandidateCourse.backed {candidate : Candidate} {made : List Exchange}
    {told : List Event} {outcome : Outcome}
    (course : CandidateCourse settings date candidate cache made told outcome cache')
    (before : cache.IsBacked caching past) : cache'.IsBacked caching (past ++ made) := by
  cases course with
  | skipped => exact before.extend _
  | @judged reply _ made _ _ _ found =>
      rw [List.append_cons]
      exact found.backed (before.extend _)

/-- Each candidate is audited by a course of its own, with a cache of which everything holds that
the audits of candidates keep. -/
theorem AuditCourse.getElem? {invariant : List Exchange → IssuerCache → Prop}
    (kept : ∀ {past candidate cache made told outcome cache'},
      CandidateCourse settings date candidate cache made told outcome cache' →
      invariant past cache → invariant (past ++ made) cache')
    {candidates : List Candidate} {segments : List (List Exchange)}
    {tellings : List (List Event)} {outcomes : List Outcome}
    (course : AuditCourse settings date candidates cache segments tellings outcomes cache')
    (before : invariant past cache) {index : Nat} {candidate : Candidate}
    {made : List Exchange} {outcome : Outcome} (chosen : candidates[index]? = some candidate)
    (exchanged : segments[index]? = some made) (ended : outcomes[index]? = some outcome) :
    ∃ earlier told later, invariant (past ++ (segments.take index).flatten) earlier ∧
      CandidateCourse settings date candidate earlier made told outcome later := by
  induction course generalizing past index with
  | done => simp at chosen
  | @next head rest cache first told result middle segments _ _ _ single _ inductionHypothesis =>
      cases index with
      | zero =>
          simp only [List.getElem?_cons_zero, Option.some.injEq] at chosen exchanged ended
          subst chosen exchanged ended
          refine ⟨cache, told, middle, ?_, single⟩
          simpa using before
      | succ index =>
          simp only [List.getElem?_cons_succ] at chosen exchanged ended
          have further := inductionHypothesis (kept single before) chosen exchanged ended
          rw [List.append_assoc] at further
          exact further

theorem AuditCourse.length_eq {candidates : List Candidate} {segments : List (List Exchange)}
    {tellings : List (List Event)} {outcomes : List Outcome}
    (course : AuditCourse settings date candidates cache segments tellings outcomes cache') :
    segments.length = candidates.length ∧ outcomes.length = candidates.length := by
  induction course with
  | done => exact ⟨rfl, rfl⟩
  | next _ _ inductionHypothesis =>
      simp only [List.length_cons, inductionHypothesis.1, inductionHypothesis.2, and_self]

theorem AuditCourse.backed {candidates : List Candidate} {segments : List (List Exchange)}
    {tellings : List (List Event)} {outcomes : List Outcome}
    (course : AuditCourse settings date candidates cache segments tellings outcomes cache')
    (before : cache.IsBacked caching past) :
    cache'.IsBacked caching (past ++ segments.flatten) := by
  induction course generalizing past with
  | done => exact before.extend []
  | next single _ inductionHypothesis =>
      rw [List.flatten_cons, ← List.append_assoc]
      exact inductionHypothesis (single.backed before)

theorem RunCourse.backed {files files' : FileTree} {made : List Exchange} {told : List Event}
    {result : Except SaveError Report}
    (course : RunCourse settings domain date cache files made told result cache' files')
    (before : cache.IsBacked caching past) : cache'.IsBacked caching (past ++ made) := by
  cases course with
  | ended _ _ audited _ =>
      rw [List.append_cons]
      exact audited.backed (before.extend _)

/-- The caches and worlds that an auditor with these settings can come to: it starts with an
empty cache, and between its audits the network and the files may change in any way. -/
inductive Lifetime (network : Network State) (settings : Settings) :
    IssuerCache → World State → Prop where
  | start {state files} :
      Lifetime network settings { enabled := settings.cacheIssuers } { network := state, files }
  | meanwhile {cache world state files} :
      Lifetime network settings cache world →
      Lifetime network settings cache { world with network := state, files }
  | audit {cache world domain date result cache' world'} :
      Lifetime network settings cache world →
      run (World.environment network) settings domain date cache world =
        ((result, cache'), world') →
      Lifetime network settings cache' world'

theorem Lifetime.backed {network : Network State} {world : World State}
    (life : Lifetime network settings cache world) :
    cache.IsBacked settings.cacheIssuers world.exchanges := by
  induction life with
  | start => exact .empty _ _
  | meanwhile _ inductionHypothesis => exact inductionHypothesis
  | @audit cache world domain date result cache' world' _ ran inductionHypothesis =>
      obtain ⟨state, made, told, result, cache', files', _, course, same⟩ :=
        run_course network settings domain date cache world
      rw [ran] at same
      cases same
      exact course.backed inductionHypothesis

end Audit

end CertificateAudit
