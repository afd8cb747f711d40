import CertificateAudit.Proofs.Audit.Dates
import CertificateAudit.Proofs.Pem.Certificate
import CertificateAudit.Proofs.Revocation.FirstIssuer

/-!
What an audit asks for. A cache remembers exactly the first issuer that the exchanges so far
brought from each URL (`IssuerCache.Remembers`), so every request of an audit is determined by
the exchanges before it: `IsDue` says which ones belong to a candidate, and `requests_in_order`
says that an audit makes these and no others, one candidate after the other.
-/

namespace CertificateAudit

open CertificateAudit.Audit CertificateAudit.Calendar CertificateAudit.Http
open CertificateAudit.Revocation CertificateAudit.Store CertificateAudit.Text

variable {State : Type}

namespace Audit

def Exchange.issuer? (url : String) (exchange : Exchange) : Option Issuer :=
  if exchange.request = Issuer.request url then (Issuer.ofReply url exchange.reply).toOption
  else none

/-- The issuer that was brought from a URL first. -/
def firstIssuer (url : String) (exchanges : List Exchange) : Option Issuer :=
  exchanges.findSome? (Exchange.issuer? url)

/-- The issuer from a URL that need not be asked for any more. -/
def keptIssuer (caching : Bool) (url : String) (past : List Exchange) : Option Issuer :=
  if caching then firstIssuer url past else none

theorem Exchange.issuer?_request (url asked : String) (reply : Reply) :
    Exchange.issuer? url ⟨Issuer.request asked, reply⟩ =
      if asked = url then (Issuer.ofReply url reply).toOption else none := by
  by_cases same : asked = url
  · simp [Exchange.issuer?, same]
  · have differs : Issuer.request asked ≠ Issuer.request url := by
      intro sameRequest
      exact same (Issuer.request_injective sameRequest)
    simp [Exchange.issuer?, same, differs]

theorem firstIssuer_append (url : String) (earlier later : List Exchange) :
    firstIssuer url (earlier ++ later) =
      (firstIssuer url earlier).or (firstIssuer url later) := by
  simp [firstIssuer, List.findSome?_append]

theorem firstIssuer_singleton (url asked : String) (reply : Reply) :
    firstIssuer url [⟨Issuer.request asked, reply⟩] =
      if asked = url then (Issuer.ofReply url reply).toOption else none := by
  simp [firstIssuer, Exchange.issuer?_request]

/-- The exchange asks for something else than an issuer. -/
def Exchange.IsForeign (exchange : Exchange) : Prop :=
  ∀ url, exchange.request ≠ Issuer.request url

theorem keptIssuer_append_foreign {caching : Bool} {url : String} {past : List Exchange}
    {exchange : Exchange} (foreign : exchange.IsForeign) :
    keptIssuer caching url (past ++ [exchange]) = keptIssuer caching url past := by
  have brings : firstIssuer url [exchange] = none := by
    simp [firstIssuer, Exchange.issuer?, foreign url]
  simp [keptIssuer, firstIssuer_append, brings]

theorem isForeign_searchExchange (settings : Settings) (domain : String) (reply : Reply) :
    (searchExchange settings domain reply).IsForeign := by
  intro url same
  cases congrArg Request.userAgent same

theorem isForeign_bodyRequest (settings : Settings) (id : Int) (reply : Reply) :
    (Exchange.mk (Log.bodyRequest settings id) reply).IsForeign := by
  intro url same
  cases congrArg Request.userAgent same

theorem isForeign_responderRequest (responder : String) (question : List UInt8)
    (reply : Reply) : (Exchange.mk (responderRequest responder question) reply).IsForeign := by
  intro url same
  cases congrArg Request.method same

end Audit

theorem Issuer.isSome_ofDer?_of_decode {url : String} {body : List UInt8} {issuer : Issuer}
    (decoded : Issuer.decode url body = .ok issuer) :
    (Certificate.ofDer? issuer.der).isSome = true := by
  unfold Issuer.decode at decoded
  split at decoded
  case h_1 read =>
    cases decoded
    rw [read]
    rfl
  case h_2 => cases decoded

namespace Audit

/-- An issuer that was brought is a certificate that can be read. -/
theorem exists_ofDer?_of_firstIssuer {url : String} {exchanges : List Exchange}
    {issuer : Issuer} (first : firstIssuer url exchanges = some issuer) :
    ∃ issuerCertificate, Certificate.ofDer? issuer.der = some issuerCertificate := by
  obtain ⟨⟨request, reply⟩, _, brings⟩ := List.exists_of_findSome?_eq_some first
  unfold Exchange.issuer? at brings
  split at brings
  case isTrue =>
    cases served : Issuer.ofReply url reply with
    | error error => simp [served, Except.toOption] at brings
    | ok supplied =>
        simp only [served, Except.toOption, Option.some.injEq] at brings
        subst brings
        obtain ⟨body, _, decoded⟩ := Issuer.ofReply_eq_ok_iff.mp served
        exact Option.isSome_iff_exists.mp (Issuer.isSome_ofDer?_of_decode decoded)
  case isFalse => cases brings

theorem exists_ofDer?_of_keptIssuer {caching : Bool} {url : String} {past : List Exchange}
    {issuer : Issuer} (kept : keptIssuer caching url past = some issuer) :
    ∃ issuerCertificate, Certificate.ofDer? issuer.der = some issuerCertificate := by
  unfold keptIssuer at kept
  split at kept
  case isTrue => exact exists_ofDer?_of_firstIssuer kept
  case isFalse => cases kept

end Audit

namespace IssuerCache

/-- The cache holds the first issuer from each URL, if issuers are kept, and nothing else. -/
structure Remembers (caching : Bool) (past : List Exchange) (cache : IssuerCache) : Prop where
  enabled_eq : cache.enabled = caching
  find?_eq : ∀ url, cache.find? url = keptIssuer caching url past

variable {caching : Bool} {past : List Exchange} {cache : IssuerCache}

theorem Remembers.empty (caching : Bool) : Remembers caching [] { enabled := caching } := by
  refine ⟨rfl, ?_⟩
  intro url
  cases caching <;> rfl

theorem Remembers.foreign (remembers : cache.Remembers caching past) {exchange : Exchange}
    (foreign : exchange.IsForeign) : cache.Remembers caching (past ++ [exchange]) := by
  refine ⟨remembers.enabled_eq, ?_⟩
  intro url
  rw [keptIssuer_append_foreign foreign]
  exact remembers.find?_eq url

theorem Remembers.unserved (remembers : cache.Remembers caching past) {url : String}
    {reply : Reply} {error : RevocationError} (failed : Issuer.ofReply url reply = .error error) :
    cache.Remembers caching (past ++ [⟨Issuer.request url, reply⟩]) := by
  refine ⟨remembers.enabled_eq, ?_⟩
  intro other
  have brings : firstIssuer other [⟨Issuer.request url, reply⟩] = none := by
    rw [firstIssuer_singleton]
    split
    case isTrue same =>
      subst same
      rw [failed]
      rfl
    case isFalse => rfl
  rw [remembers.find?_eq other]
  simp [keptIssuer, firstIssuer_append, brings]

theorem Remembers.served (remembers : cache.Remembers caching past) {url : String}
    {reply : Reply} {issuer : Issuer} (absent : cache.find? url = none)
    (served : Issuer.ofReply url reply = .ok issuer) :
    (cache.keep url issuer).Remembers caching (past ++ [⟨Issuer.request url, reply⟩]) := by
  have enabled := remembers.enabled_eq
  cases caching with
  | false =>
      have unchanged : cache.keep url issuer = cache := by simp [keep, enabled]
      rw [unchanged]
      refine ⟨enabled, ?_⟩
      intro other
      exact remembers.find?_eq other
  | true =>
      refine ⟨by simp [keep, enabled], ?_⟩
      intro other
      apply Option.ext
      intro found
      rw [find?_keep_iff enabled absent, remembers.find?_eq other]
      by_cases same : url = other
      · subst same
        rw [remembers.find?_eq url] at absent
        simp only [keptIssuer, if_true] at absent
        simp [keptIssuer, firstIssuer_append, firstIssuer_singleton, absent, served,
          Except.toOption, eq_comm]
      · simp [keptIssuer, firstIssuer_append, firstIssuer_singleton, same, Ne.symm same]

end IssuerCache

theorem IssuerCourse.remembers {certificate : Certificate} {cache cache' : IssuerCache}
    {made past : List Exchange} {caching : Bool} {result : Except RevocationError Issuer}
    (course : IssuerCourse certificate cache made result cache')
    (before : cache.Remembers caching past) : cache'.Remembers caching (past ++ made) := by
  cases course with
  | unlocated =>
      rw [List.append_nil]
      exact before
  | known =>
      rw [List.append_nil]
      exact before
  | failed _ _ failed => exact before.unserved failed
  | fetched _ absent served => exact before.served absent served

theorem Revocation.StatusCourse.remembers {der : List UInt8} {cache cache' : IssuerCache}
    {made past : List Exchange} {caching : Bool} {status : Except RevocationError Ocsp.CertStatus}
    (course : StatusCourse der cache made status cache')
    (before : cache.Remembers caching past) : cache'.Remembers caching (past ++ made) := by
  cases course with
  | unreadable =>
      rw [List.append_nil]
      exact before
  | noResponder =>
      rw [List.append_nil]
      exact before
  | noIssuer _ _ resolved => exact resolved.remembers before
  | badIssuer _ _ resolved => exact resolved.remembers before
  | asked _ _ resolved =>
      rw [← List.append_assoc]
      exact (resolved.remembers before).foreign (isForeign_responderRequest _ _ _)

namespace Audit

variable {settings : Settings} {domain : String} {date : Date} {cache cache' : IssuerCache}
  {past : List Exchange} {caching : Bool}

theorem CandidateCourse.remembers {candidate : Candidate} {made : List Exchange}
    {told : List Event} {outcome : Outcome}
    (course : CandidateCourse settings date candidate cache made told outcome cache')
    (before : cache.Remembers caching past) : cache'.Remembers caching (past ++ made) := by
  cases course with
  | skipped => exact before.foreign (isForeign_bodyRequest _ _ _)
  | judged _ found =>
      rw [List.append_cons]
      exact found.remembers (before.foreign (isForeign_bodyRequest _ _ _))

theorem AuditCourse.remembers {candidates : List Candidate} {segments : List (List Exchange)}
    {tellings : List (List Event)} {outcomes : List Outcome}
    (course : AuditCourse settings date candidates cache segments tellings outcomes cache')
    (before : cache.Remembers caching past) :
    cache'.Remembers caching (past ++ segments.flatten) := by
  induction course generalizing past with
  | done =>
      rw [List.flatten_nil, List.append_nil]
      exact before
  | next single _ inductionHypothesis =>
      rw [List.flatten_cons, ← List.append_assoc]
      exact inductionHypothesis (single.remembers before)

theorem RunCourse.remembers {files files' : FileTree} {made : List Exchange} {told : List Event}
    {result : Except SaveError Report}
    (course : RunCourse settings domain date cache files made told result cache' files')
    (before : cache.Remembers caching past) : cache'.Remembers caching (past ++ made) := by
  cases course with
  | ended _ _ audited _ =>
      rw [List.append_cons]
      exact audited.remembers (before.foreign (isForeign_searchExchange _ _ _))

theorem Lifetime.remembers {network : Network State} {world : World State}
    (life : Lifetime network settings cache world) :
    cache.Remembers settings.cacheIssuers world.exchanges := by
  induction life with
  | start => exact .empty _
  | meanwhile _ inductionHypothesis => exact inductionHypothesis
  | @audit cache world domain date result cache' world' _ ran inductionHypothesis =>
      obtain ⟨state, made, told, result, cache', files', _, course, same⟩ :=
        run_course network settings domain date cache world
      rw [ran] at same
      cases same
      exact course.remembers inductionHypothesis

/-- The reply holds a certificate that can be read, and this one names a responder and a source
of its issuer. -/
structure Names (reply : Reply) (leaf : Certificate) (responder source : String) : Prop where
  served : ∃ body der subject, bodyOf reply = .ok body ∧
    Pem.readCertificate (String.ofList (Utf8.decodeLossy body)) = .ok (der, subject) ∧
    Certificate.ofDer? der = some leaf
  responder : leaf.accessUrl .ocsp = .ok responder
  source : leaf.accessUrl .caIssuers = .ok source

/-- What has to be exchanged about a candidate once its certificate was asked for, first with the
source of its issuer and then with its responder. -/
structure IsDue (caching : Bool) (past : List Exchange) (reply : Reply)
    (fetches questions : List Exchange) : Prop where
  /-- There is nothing to ask for without a certificate that names whom to ask. -/
  idle : (¬ ∃ leaf responder source, Names reply leaf responder source) →
    fetches = [] ∧ questions = []
  fetched : ∀ {leaf responder source}, Names reply leaf responder source →
    fetches.map Exchange.request =
      if (keptIssuer caching source past).isSome then [] else [Issuer.request source]
  asked : ∀ {leaf responder source}, Names reply leaf responder source → ∀ issuer,
    (keptIssuer caching source past).or (firstIssuer source fetches) = some issuer →
    ∃ issuerCertificate, Certificate.ofDer? issuer.der = some issuerCertificate ∧
      questions.map Exchange.request =
        [responderRequest responder (Ocsp.request leaf issuerCertificate)]
  unasked : ∀ {leaf responder source}, Names reply leaf responder source →
    (keptIssuer caching source past).or (firstIssuer source fetches) = none → questions = []

theorem Names.unique {reply : Reply} {leaf leaf' : Certificate}
    {responder responder' source source' : String} (names : Names reply leaf responder source)
    (names' : Names reply leaf' responder' source') :
    leaf' = leaf ∧ responder' = responder ∧ source' = source := by
  obtain ⟨⟨body, der, subject, usable, read, decoded⟩, asks, gets⟩ := names
  obtain ⟨⟨body', der', subject', usable', read', decoded'⟩, asks', gets'⟩ := names'
  cases usable.symm.trans usable'
  cases read.symm.trans read'
  cases decoded.symm.trans decoded'
  cases asks.symm.trans asks'
  cases gets.symm.trans gets'
  exact ⟨rfl, rfl, rfl⟩

namespace IsDue

variable {reply : Reply} {fetches questions : List Exchange}

theorem of_unnamed (unnamed : ∀ leaf responder source, ¬ Names reply leaf responder source) :
    IsDue caching past reply [] [] := by
  refine ⟨fun _ => ⟨rfl, rfl⟩, ?_, ?_, ?_⟩
  · intro leaf responder source names
    exact absurd names (unnamed leaf responder source)
  · intro leaf responder source names
    exact absurd names (unnamed leaf responder source)
  · intro leaf responder source names
    exact absurd names (unnamed leaf responder source)

theorem of_named {leaf : Certificate} {responder source : String}
    (names : Names reply leaf responder source)
    (fetched : fetches.map Exchange.request =
      if (keptIssuer caching source past).isSome then [] else [Issuer.request source])
    (asked : ∀ issuer,
      (keptIssuer caching source past).or (firstIssuer source fetches) = some issuer →
      ∃ issuerCertificate, Certificate.ofDer? issuer.der = some issuerCertificate ∧
        questions.map Exchange.request =
          [responderRequest responder (Ocsp.request leaf issuerCertificate)])
    (unasked : (keptIssuer caching source past).or (firstIssuer source fetches) = none →
      questions = []) :
    IsDue caching past reply fetches questions := by
  refine ⟨?_, ?_, ?_, ?_⟩
  · intro unnamed
    exact absurd ⟨leaf, responder, source, names⟩ unnamed
  · intro _ _ _ names'
    obtain ⟨rfl, rfl, rfl⟩ := names.unique names'
    exact fetched
  · intro _ _ _ names'
    obtain ⟨rfl, rfl, rfl⟩ := names.unique names'
    exact asked
  · intro _ _ _ names'
    obtain ⟨rfl, rfl, rfl⟩ := names.unique names'
    exact unasked

/-- An issuer that was not kept is fetched, and then the responder is asked. -/
theorem requests_of_served (due : IsDue caching past reply fetches questions)
    {leaf : Certificate} {responder source : String} (names : Names reply leaf responder source)
    (missing : keptIssuer caching source past = none) {issuer : Issuer}
    (served : ∀ exchange ∈ fetches, exchange.request = Issuer.request source →
      Issuer.ofReply source exchange.reply = .ok issuer)
    {issuerCertificate : Certificate}
    (decoded : Certificate.ofDer? issuer.der = some issuerCertificate) :
    (fetches ++ questions).map Exchange.request =
      [Issuer.request source,
        responderRequest responder (Ocsp.request leaf issuerCertificate)] := by
  have fetched := due.fetched names
  rw [missing] at fetched
  obtain ⟨⟨request, reply⟩, rfl, isFetch⟩ := List.map_eq_singleton_iff.mp fetched
  have brings : firstIssuer source [⟨request, reply⟩] = some issuer := by
    have supplied : Issuer.ofReply source reply = .ok issuer :=
      served ⟨request, reply⟩ List.mem_cons_self isFetch
    have isFetch : request = Issuer.request source := isFetch
    rw [isFetch, firstIssuer_singleton, if_pos rfl, supplied]
    rfl
  obtain ⟨read, decoded', asked⟩ := due.asked names issuer (by rw [missing, brings]; rfl)
  cases decoded.symm.trans decoded'
  rw [List.map_append, fetched, asked]
  rfl

theorem of_foreign {exchange : Exchange} (foreign : exchange.IsForeign)
    (due : IsDue caching (past ++ [exchange]) reply fetches questions) :
    IsDue caching past reply fetches questions := by
  refine ⟨due.idle, ?_, ?_, ?_⟩
  · intro leaf responder source names
    rw [← keptIssuer_append_foreign foreign]
    exact due.fetched names
  · intro leaf responder source names
    rw [← keptIssuer_append_foreign foreign]
    exact due.asked names
  · intro leaf responder source names
    rw [← keptIssuer_append_foreign foreign]
    exact due.unasked names

end IsDue

end Audit

namespace IssuerCourse

variable {certificate : Certificate} {cache cache' : IssuerCache} {made past : List Exchange}
  {caching : Bool} {result : Except RevocationError Issuer}

theorem of_unlocated (course : IssuerCourse certificate cache made result cache')
    {error : RevocationError} (unlocated : certificate.location .caIssuers = .error error) :
    made = [] ∧ result = .error error := by
  cases course with
  | unlocated same =>
      cases unlocated.symm.trans same
      exact ⟨rfl, rfl⟩
  | known located _ => cases unlocated.symm.trans located
  | failed located _ _ => cases unlocated.symm.trans located
  | fetched located _ _ => cases unlocated.symm.trans located

/-- The issuer is asked for exactly if it was not kept, and it is the kept one or the one that is
brought now. -/
theorem of_located (course : IssuerCourse certificate cache made result cache')
    (before : cache.Remembers caching past) {source : String}
    (located : certificate.location .caIssuers = .ok source) :
    (made.map Exchange.request =
      if (keptIssuer caching source past).isSome then [] else [Issuer.request source]) ∧
    (keptIssuer caching source past).or (firstIssuer source made) = result.toOption := by
  have remembered := before.find?_eq source
  cases kept : cache.find? source with
  | some issuer =>
      obtain ⟨rfl, rfl⟩ := course.of_present located kept
      rw [← remembered, kept]
      exact ⟨rfl, rfl⟩
  | none =>
      obtain ⟨reply, rfl, rfl⟩ := course.of_absent located kept
      rw [← remembered, kept, firstIssuer_singleton, if_pos rfl]
      exact ⟨rfl, rfl⟩

end IssuerCourse

namespace Revocation.StatusCourse

variable {der : List UInt8} {cache cache' : IssuerCache} {made past : List Exchange}
  {caching : Bool} {status : Except RevocationError Ocsp.CertStatus} {reply : Reply}

theorem isDue (course : StatusCourse der cache made status cache')
    (before : cache.Remembers caching past)
    (named : ∀ {leaf responder source}, Names reply leaf responder source ↔
      Certificate.ofDer? der = some leaf ∧ leaf.location .ocsp = .ok responder ∧
        leaf.location .caIssuers = .ok source) :
    ∃ fetches questions, made = fetches ++ questions ∧
      IsDue caching past reply fetches questions := by
  cases course with
  | unreadable unreadable =>
      refine ⟨[], [], rfl, .of_unnamed ?_⟩
      intro leaf responder source names
      obtain ⟨read, _, _⟩ := named.mp names
      cases unreadable.symm.trans read
  | noResponder read unlocated =>
      refine ⟨[], [], rfl, .of_unnamed ?_⟩
      intro leaf responder source names
      obtain ⟨readLeaf, located, _⟩ := named.mp names
      cases read.symm.trans readLeaf
      cases unlocated.symm.trans located
  | @noIssuer certificate responder made error _ read located resolved =>
      cases sourced : certificate.location .caIssuers with
      | error _ =>
          obtain ⟨rfl, _⟩ := resolved.of_unlocated sourced
          refine ⟨[], [], rfl, .of_unnamed ?_⟩
          intro leaf _ source names
          obtain ⟨readLeaf, _, gets⟩ := named.mp names
          cases read.symm.trans readLeaf
          cases sourced.symm.trans gets
      | ok source =>
          obtain ⟨fetched, obtained⟩ := resolved.of_located before sourced
          refine ⟨made, [], (List.append_nil made).symm,
            .of_named (named.mpr ⟨read, located, sourced⟩) fetched ?_ fun _ => rfl⟩
          intro issuer given
          cases obtained.symm.trans given
  | @badIssuer certificate responder made issuer _ read located resolved unreadable =>
      -- A kept or fetched issuer was read before, so it can be read again.
      cases sourced : certificate.location .caIssuers with
      | error _ => cases (resolved.of_unlocated sourced).2
      | ok source =>
          obtain ⟨_, obtained⟩ := resolved.of_located before sourced
          rcases Option.or_eq_some_iff.mp obtained with kept | ⟨_, first⟩
          · obtain ⟨_, readable⟩ := exists_ofDer?_of_keptIssuer kept
            cases unreadable.symm.trans readable
          · obtain ⟨_, readable⟩ := exists_ofDer?_of_firstIssuer first
            cases unreadable.symm.trans readable
  | @asked certificate responder made issuer issuerCertificate answer _ read located resolved
      decoded =>
      cases sourced : certificate.location .caIssuers with
      | error _ => cases (resolved.of_unlocated sourced).2
      | ok source =>
          obtain ⟨fetched, obtained⟩ := resolved.of_located before sourced
          refine ⟨made, _, rfl, .of_named (named.mpr ⟨read, located, sourced⟩) fetched ?_ ?_⟩
          · intro other given
            cases obtained.symm.trans given
            exact ⟨issuerCertificate, decoded, rfl⟩
          · intro missing
            cases obtained.symm.trans missing

end Revocation.StatusCourse

namespace Audit

variable {settings : Settings} {domain : String} {date : Date} {cache cache' : IssuerCache}
  {past : List Exchange} {caching : Bool}

theorem names_iff {url : String} {candidate : Candidate} {reply : Reply} {record : Record}
    (given : Log.recordOf url candidate reply = .ok record) {leaf : Certificate}
    {responder source : String} :
    Names reply leaf responder source ↔ Certificate.ofDer? record.der = some leaf ∧
      leaf.location .ocsp = .ok responder ∧ leaf.location .caIssuers = .ok source := by
  obtain ⟨body, subject, usable, read, _⟩ := Log.recordOf_eq_ok_iff.mp given
  rw [Certificate.location_eq_ok_iff, Certificate.location_eq_ok_iff]
  constructor
  · rintro ⟨⟨body', der, subject', usable', read', decoded⟩, asks, gets⟩
    cases usable.symm.trans usable'
    cases read.symm.trans read'
    exact ⟨decoded, asks, gets⟩
  · rintro ⟨decoded, asks, gets⟩
    exact ⟨⟨body, record.der, subject, usable, read, decoded⟩, asks, gets⟩

theorem CandidateCourse.isDue {candidate : Candidate} {made : List Exchange}
    {told : List Event} {outcome : Outcome}
    (course : CandidateCourse settings date candidate cache made told outcome cache')
    (before : cache.Remembers caching past) :
    ∃ reply fetches questions,
      made = ⟨Log.bodyRequest settings candidate.id, reply⟩ :: (fetches ++ questions) ∧
        IsDue caching past reply fetches questions := by
  cases course with
  | @skipped reply error failed =>
      refine ⟨reply, [], [], rfl, .of_unnamed ?_⟩
      rintro leaf responder source ⟨⟨body, der, subject, usable, read, _⟩, _, _⟩
      simp [Log.recordOf, usable, read] at failed
  | @judged reply record made _ _ given found =>
      have foreign := isForeign_bodyRequest settings candidate.id reply
      obtain ⟨fetches, questions, rfl, due⟩ :=
        found.isDue (before.foreign foreign) (names_iff given)
      exact ⟨reply, fetches, questions, rfl, due.of_foreign foreign⟩

/-- The sample network with a log that serves the certificate as it would be saved. -/
def exportingNetwork : Network Unit where
  answer request state :=
    if request = Log.bodyRequest {} 7 then
      (.ok ⟨200, some (Utf8.encode (Pem.writeCertificate sampleCertificate).toList)⟩, state)
    else sampleNetwork.answer request state

theorem exportingNetwork_found :
    found {} "example.com" (exportingNetwork.answer (Log.searchRequest {} "example.com") ()).1 =
      [sampleCandidate] := by
  decide +kernel

theorem exportingNetwork_body : (exportingNetwork.answer (Log.bodyRequest {} 7) ()).1 =
    .ok ⟨200, some (Utf8.encode (Pem.writeCertificate sampleCertificate).toList)⟩ := by
  simp only [exportingNetwork, if_true]

theorem exportingNetwork_issuer :
    Issuer.ofReply "i" (exportingNetwork.answer (Issuer.request "i") ()).1 =
      .ok Resolutions.sampleIssuer := by
  have foreign := isForeign_bodyRequest {} 7 (.ok ⟨200, none⟩) "i"
  simp only [exportingNetwork, if_neg (Ne.symm foreign)]
  exact Resolutions.decode_sampleCertificate

theorem ofDer?_sampleCertificate :
    Certificate.ofDer? sampleCertificate = some Resolutions.sampleLeaf :=
  (Option.some_get _).symm

theorem names_saved :
    Names (.ok ⟨200, some (Utf8.encode (Pem.writeCertificate sampleCertificate).toList)⟩)
      Resolutions.sampleLeaf "o" "i" := by
  refine ⟨⟨_, sampleCertificate, Resolutions.sampleLeaf.subject.text, rfl, ?_,
    ofDer?_sampleCertificate⟩, ?_, ?_⟩
  · rw [Pem.writeCertificate, String.toList_ofList, Utf8.decodeLossy_encode]
    exact Pem.readCertificate_writeCertificate ofDer?_sampleCertificate
  · rfl
  · rfl

end Audit

end CertificateAudit
