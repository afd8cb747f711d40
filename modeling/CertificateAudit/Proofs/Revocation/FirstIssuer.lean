import CertificateAudit.Proofs.Audit.Acceptance

/-!
A resolver that keeps issuers, over its whole life. `Resolutions` are the calls that it can have
answered one after the other, whatever the network did at or between them. Its cache holds
exactly the issuers that calls succeeded with (`Resolutions.find?_eq_some_iff`), and from this
`first_issuer_stays` follows: the first issuer that a URL gives is the issuer for good.
-/

namespace CertificateAudit

open CertificateAudit.Audit CertificateAudit.Http

variable {State : Type}

/-- A call for the issuer of a certificate: what was exchanged, what came of it, and the cache
before and behind it. -/
structure Resolution where
  certificate : Certificate
  before : IssuerCache
  exchanges : List Exchange
  result : Except RevocationError Issuer
  behind : IssuerCache

namespace Resolution

/-- The call was for the issuer from this URL. -/
def IsFor (call : Resolution) (url : String) : Prop :=
  call.certificate.location .caIssuers = .ok url

/-- The call was for the issuer from this URL and gave this one. -/
def Gives (call : Resolution) (url : String) (issuer : Issuer) : Prop :=
  call.IsFor url ∧ call.result = .ok issuer

end Resolution

/-- The calls that a resolver can have answered so far, and its cache. It keeps issuers and
starts without any; at every call the world may be another. -/
inductive Resolutions (network : Network State) : List Resolution → IssuerCache → Prop where
  | start : Resolutions network [] { enabled := true }
  | call {calls cache certificate exchanges result cache'} {world world' : World State} :
      Resolutions network calls cache →
      certificate.resolveIssuer (World.send network) cache world = ((result, cache'), world') →
      world'.exchanges = world.exchanges ++ exchanges →
      Resolutions network (calls ++ [⟨certificate, cache, exchanges, result, cache'⟩]) cache'

theorem Issuer.request_injective {url other : String}
    (same : Issuer.request url = Issuer.request other) : url = other :=
  congrArg Request.url same

theorem Issuer.url_of_decode {url : String} {body : List UInt8} {issuer : Issuer}
    (decoded : Issuer.decode url body = .ok issuer) : issuer.url = url := by
  unfold Issuer.decode at decoded
  split at decoded
  · cases decoded
    rfl
  · cases decoded

namespace Audit.Exchange

/-- The exchange is a request for the issuer from this URL and brought one. -/
def supplies (url : String) (exchange : Exchange) : Bool :=
  exchange.request = Issuer.request url && (Issuer.ofReply url exchange.reply).toOption.isSome

theorem supplies_request (url asked : String) (reply : Reply) :
    supplies url ⟨Issuer.request asked, reply⟩ =
      (decide (asked = url) && (Issuer.ofReply asked reply).toOption.isSome) := by
  by_cases same : asked = url
  · simp [supplies, same]
  · have differs : Issuer.request asked ≠ Issuer.request url := by
      intro sameRequest
      exact same (Issuer.request_injective sameRequest)
    simp [supplies, same, differs]

end Audit.Exchange

namespace IssuerCache

variable {cache : IssuerCache} {url other : String} {issuer kept : Issuer}

theorem find?_keep_iff (enabled : cache.enabled = true) (absent : cache.find? url = none) :
    (cache.keep url kept).find? other = some issuer ↔
      cache.find? other = some issuer ∨ (other = url ∧ issuer = kept) := by
  refine ⟨find?_keep, ?_⟩
  simp only [find?, keep, enabled, if_true] at absent ⊢
  rintro (present | ⟨rfl, rfl⟩)
  · simp [List.lookup_append, present]
  · simp [List.lookup_append, absent]

end IssuerCache

namespace IssuerCourse

variable {certificate : Certificate} {before behind : IssuerCache} {made : List Exchange}
  {result : Except RevocationError Issuer} {url : String}

theorem enabled_eq (course : IssuerCourse certificate before made result behind) :
    behind.enabled = before.enabled := by
  cases course with
  | unlocated => rfl
  | known => rfl
  | failed => rfl
  | fetched =>
      unfold IssuerCache.keep
      split <;> rfl

theorem behind_eq_of_error {error : RevocationError}
    (course : IssuerCourse certificate before made (.error error) behind) : behind = before := by
  cases course with
  | unlocated => rfl
  | failed => rfl

/-- A call adds the issuer that it gives, and nothing else. -/
theorem find?_behind_iff (course : IssuerCourse certificate before made result behind)
    (enabled : before.enabled = true) {issuer : Issuer} :
    behind.find? url = some issuer ↔
      before.find? url = some issuer ∨
        (certificate.location .caIssuers = .ok url ∧ result = .ok issuer) := by
  cases course with
  | unlocated located => simp [located]
  | @known own kept located found =>
      refine ⟨.inl, ?_⟩
      rintro (present | ⟨isFor, given⟩)
      · exact present
      · cases located.symm.trans isFor
        cases given
        exact found
  | failed located absent served => simp
  | @fetched own reply kept located absent served =>
      rw [IssuerCache.find?_keep_iff enabled absent, located, Except.ok.injEq, Except.ok.injEq,
        eq_comm (a := url), eq_comm (a := issuer)]

theorem of_present (course : IssuerCourse certificate before made result behind)
    {issuer : Issuer} (isFor : certificate.location .caIssuers = .ok url)
    (present : before.find? url = some issuer) : result = .ok issuer ∧ made = [] := by
  cases course with
  | unlocated located => cases located.symm.trans isFor
  | known located found =>
      cases located.symm.trans isFor
      cases found.symm.trans present
      exact ⟨rfl, rfl⟩
  | failed located absent _ =>
      cases located.symm.trans isFor
      cases absent.symm.trans present
  | fetched located absent _ =>
      cases located.symm.trans isFor
      cases absent.symm.trans present

theorem of_absent (course : IssuerCourse certificate before made result behind)
    (isFor : certificate.location .caIssuers = .ok url) (absent : before.find? url = none) :
    ∃ reply, made = [⟨Issuer.request url, reply⟩] ∧ result = Issuer.ofReply url reply := by
  cases course with
  | unlocated located => cases located.symm.trans isFor
  | known located found =>
      cases located.symm.trans isFor
      cases absent.symm.trans found
  | @failed _ reply _ located _ served =>
      cases located.symm.trans isFor
      exact ⟨reply, rfl, served.symm⟩
  | @fetched _ reply _ located _ served =>
      cases located.symm.trans isFor
      exact ⟨reply, rfl, served.symm⟩

/-- A request brings an issuer exactly if it puts one into the cache. -/
theorem countP_supplies (course : IssuerCourse certificate before made result behind)
    (enabled : before.enabled = true) (url : String) :
    (before.find? url).isSome.toNat + made.countP (Exchange.supplies url) =
      (behind.find? url).isSome.toNat := by
  cases course with
  | unlocated => rfl
  | known => rfl
  | failed located absent served =>
      simp [Exchange.supplies_request, served, Except.toOption]
  | @fetched asked reply kept located absent served =>
      by_cases same : asked = url
      · subst same
        have added : (before.keep asked kept).find? asked = some kept :=
          (IssuerCache.find?_keep_iff enabled absent).mpr (.inr ⟨rfl, rfl⟩)
        simp [Exchange.supplies_request, served, Except.toOption, absent, added]
      · have unchanged : (before.keep asked kept).find? url = before.find? url := by
          apply Option.ext
          intro issuer
          rw [IssuerCache.find?_keep_iff enabled absent]
          simp [Ne.symm same]
        simp [Exchange.supplies_request, same, unchanged]

end IssuerCourse

namespace Resolutions

variable {network : Network State} {calls earlier later : List Resolution} {call : Resolution}
  {cache : IssuerCache}

theorem course_of_resolveIssuer {certificate : Certificate} {world world' : World State}
    {exchanges : List Exchange} {result : Except RevocationError Issuer} {cache' : IssuerCache}
    (resolved : certificate.resolveIssuer (World.send network) cache world =
      ((result, cache'), world'))
    (grown : world'.exchanges = world.exchanges ++ exchanges) :
    IssuerCourse certificate cache exchanges result cache' := by
  obtain ⟨state, made, told, ⟨given, left⟩, held, ⟨_, course⟩, ran⟩ :=
    certificate.resolveIssuer_proceeds network cache world
  rw [resolved] at ran
  cases ran
  cases List.append_cancel_left grown
  exact course

theorem enabled_eq (life : Resolutions network calls cache) : cache.enabled = true := by
  induction life with
  | start => rfl
  | call _ resolved grown inductionHypothesis =>
      exact (course_of_resolveIssuer resolved grown).enabled_eq.trans inductionHypothesis

/-- The cache holds the issuers that calls gave, each under the URL that it was asked for. -/
theorem find?_eq_some_iff (life : Resolutions network calls cache) {url : String}
    {issuer : Issuer} :
    cache.find? url = some issuer ↔ ∃ call ∈ calls, call.Gives url issuer := by
  induction life with
  | start => simp [IssuerCache.find?]
  | call past resolved grown inductionHypothesis =>
      rw [(course_of_resolveIssuer resolved grown).find?_behind_iff past.enabled_eq,
        inductionHypothesis]
      simp [Resolution.Gives, Resolution.IsFor, or_and_right, exists_or]

theorem isBacked (life : Resolutions network calls cache) :
    cache.IsBacked true (calls.flatMap Resolution.exchanges) := by
  induction life with
  | start => exact .empty true _
  | call _ resolved grown inductionHypothesis =>
      have backed := (course_of_resolveIssuer resolved grown).backed inductionHypothesis
      simpa using backed

theorem countP_supplies (life : Resolutions network calls cache) (url : String) :
    (calls.flatMap Resolution.exchanges).countP (Exchange.supplies url) =
      (cache.find? url).isSome.toNat := by
  induction life with
  | start => simp [IssuerCache.find?]
  | call past resolved grown inductionHypothesis =>
      have counted :=
        (course_of_resolveIssuer resolved grown).countP_supplies past.enabled_eq url
      simp [inductionHypothesis, counted]

/-- Every call in a life takes one of the courses of a call, with the cache that the calls
before it left. -/
theorem split (life : Resolutions network (earlier ++ call :: later) cache) :
    Resolutions network earlier call.before ∧
      IssuerCourse call.certificate call.before call.exchanges call.result call.behind := by
  generalize whole : earlier ++ call :: later = calls at life
  -- The life grows at its end: its last call is the one asked for, or one behind it.
  induction life generalizing later with
  | start => simp at whole
  | call past resolved grown inductionHypothesis =>
      rcases List.eq_nil_or_concat later with rfl | ⟨front, last, rfl⟩
      · obtain ⟨rfl, single⟩ := List.append_inj' whole rfl
        cases single
        exact ⟨past, course_of_resolveIssuer resolved grown⟩
      · rw [List.concat_eq_append, ← List.cons_append, ← List.append_assoc] at whole
        exact inductionHypothesis (List.append_inj' whole rfl).1

/-- Every entry of the cache was served under its URL, by the only request for the URL that ever
brought an issuer. Entries stay as they are, and a call that fails adds none. After a call that
gave the issuer from a URL all calls for the URL give the same one and ask nobody; until then
each of them asks. -/
theorem first_issuer_stays (life : Resolutions network calls cache) :
    (∀ url issuer, cache.find? url = some issuer →
      issuer.url = url ∧ IssuerBrought (calls.flatMap Resolution.exchanges) url issuer) ∧
    (∀ url, (calls.flatMap Resolution.exchanges).countP (Exchange.supplies url) ≤ 1) ∧
    ∀ earlier call later, calls = earlier ++ call :: later →
      (∀ url issuer, call.before.find? url = some issuer →
        call.behind.find? url = some issuer) ∧
      (∀ url issuer, call.behind.find? url = some issuer → cache.find? url = some issuer) ∧
      (∀ error, call.result = .error error → call.behind = call.before) ∧
      (∀ url issuer, call.Gives url issuer → ∀ next ∈ later, next.IsFor url →
        next.Gives url issuer ∧ next.exchanges = []) ∧
      ∀ url, call.IsFor url → (∀ past ∈ earlier, ∀ issuer, ¬ past.Gives url issuer) →
        ∃ reply, call.exchanges = [⟨Issuer.request url, reply⟩] ∧
          call.result = Issuer.ofReply url reply := by
  refine ⟨?_, ?_, ?_⟩
  · intro url issuer present
    obtain ⟨body, brought, decoded⟩ := life.isBacked.brought present
    exact ⟨Issuer.url_of_decode decoded, body, brought, decoded⟩
  · intro url
    rw [life.countP_supplies]
    exact Bool.toNat_le _
  · rintro earlier call later rfl
    obtain ⟨past, course⟩ := life.split
    -- What the call found and what it left, in terms of the calls.
    have added {url : String} {issuer : Issuer} : call.behind.find? url = some issuer ↔
        call.before.find? url = some issuer ∨ call.Gives url issuer :=
      course.find?_behind_iff past.enabled_eq
    refine ⟨?_, ?_, ?_, ?_, ?_⟩
    · intro url issuer present
      exact added.mpr (.inl present)
    · intro url issuer present
      rw [life.find?_eq_some_iff]
      rcases added.mp present with before | given
      · obtain ⟨giver, membership, gave⟩ := past.find?_eq_some_iff.mp before
        exact ⟨giver, List.mem_append_left _ membership, gave⟩
      · exact ⟨call, List.mem_append_right _ List.mem_cons_self, given⟩
    · intro error failed
      rw [failed] at course
      exact course.behind_eq_of_error
    · intro url issuer gives next membership isFor
      obtain ⟨middle, rest, rfl⟩ := List.append_of_mem membership
      rw [← List.cons_append, ← List.append_assoc] at life
      obtain ⟨pastNext, courseNext⟩ := life.split
      have present := pastNext.find?_eq_some_iff.mpr
        ⟨call, List.mem_append_right _ List.mem_cons_self, gives⟩
      obtain ⟨given, silent⟩ := courseNext.of_present isFor present
      exact ⟨⟨isFor, given⟩, silent⟩
    · intro url isFor unsuccessful
      apply course.of_absent isFor
      rw [Option.eq_none_iff_forall_ne_some]
      intro issuer present
      obtain ⟨giver, membership, gave⟩ := past.find?_eq_some_iff.mp present
      exact unsuccessful giver membership issuer gave

/-- The certificate of the sample, but with the serial number 8. -/
def otherCertificate : List UInt8 :=
  sampleCertificate.set 6 8

/-- A server that refuses the first request, serves one certificate next, and another one from
then on. -/
def changingNetwork : Network Nat where
  answer _ asked :=
    let reply :=
      match asked with
      | 0 => ⟨503, some []⟩
      | 1 => ⟨200, some sampleCertificate⟩
      | _ => ⟨200, some otherCertificate⟩
    (.ok reply, asked + 1)

def sampleLeaf : Certificate :=
  (Certificate.ofDer? sampleCertificate).get (by decide +kernel)

def sampleIssuer : Issuer :=
  ⟨"i", "", sampleCertificate⟩

theorem sampleLeaf_location : sampleLeaf.location .caIssuers = .ok "i" := by
  rfl

theorem decode_sampleCertificate :
    Issuer.decode "i" sampleCertificate = .ok sampleIssuer := by
  rfl

def sampleRefusal : Exchange :=
  ⟨Issuer.request "i", .ok ⟨503, some []⟩⟩

def sampleService : Exchange :=
  ⟨Issuer.request "i", .ok ⟨200, some sampleCertificate⟩⟩

def emptyCache : IssuerCache :=
  { enabled := true }

def filledCache : IssuerCache :=
  { enabled := true, known := [("i", sampleIssuer)] }

def refusedCall : Resolution :=
  ⟨sampleLeaf, emptyCache, [sampleRefusal], .error (.request "i" (.status 503)), emptyCache⟩

def servedCall : Resolution :=
  ⟨sampleLeaf, emptyCache, [sampleService], .ok sampleIssuer, filledCache⟩

def silentCall : Resolution :=
  ⟨sampleLeaf, filledCache, [], .ok sampleIssuer, filledCache⟩

def worldAfter (asked : Nat) (exchanges : List Exchange) : World Nat where
  network := asked
  files := {}
  exchanges := exchanges

theorem changingNetwork_calls :
    Resolutions changingNetwork [refusedCall, servedCall, silentCall] filledCache := by
  have refused : sampleLeaf.resolveIssuer (World.send changingNetwork) emptyCache
      (worldAfter 0 []) =
        ((refusedCall.result, emptyCache), worldAfter 1 [sampleRefusal]) := by
    rw [Certificate.resolveIssuer, sampleLeaf_location]
    rfl
  have served : sampleLeaf.resolveIssuer (World.send changingNetwork) emptyCache
      (worldAfter 1 [sampleRefusal]) =
        ((servedCall.result, filledCache), worldAfter 2 [sampleRefusal, sampleService]) := by
    have supplied : Issuer.ofReply "i" (.ok ⟨200, some sampleCertificate⟩) = .ok sampleIssuer :=
      decode_sampleCertificate
    have absent : emptyCache.find? "i" = none := rfl
    have answer : World.send changingNetwork (Issuer.request "i") (worldAfter 1 [sampleRefusal]) =
        (.ok ⟨200, some sampleCertificate⟩, worldAfter 2 [sampleRefusal, sampleService]) := rfl
    simp only [Certificate.resolveIssuer, sampleLeaf_location, absent, bind, StateT.bind, answer,
      supplied]
    rfl
  have known : sampleLeaf.resolveIssuer (World.send changingNetwork) filledCache
      (worldAfter 2 [sampleRefusal, sampleService]) =
        ((silentCall.result, filledCache), worldAfter 2 [sampleRefusal, sampleService]) := by
    rw [Certificate.resolveIssuer, sampleLeaf_location]
    rfl
  exact .call (.call (.call .start refused rfl) served rfl) known (List.append_nil _).symm

/-- The first call fails, the second succeeds, and the third gives the issuer of the second,
though by now the server would serve another. -/
theorem first_issuer_stays_sample :
    Resolutions changingNetwork [refusedCall, servedCall, silentCall] filledCache ∧
      refusedCall.result = .error (.request "i" (.status 503)) ∧
      refusedCall.behind = refusedCall.before ∧ servedCall.Gives "i" sampleIssuer ∧
      silentCall.Gives "i" sampleIssuer ∧ silentCall.exchanges = [] := by
  obtain ⟨_, _, each⟩ := first_issuer_stays changingNetwork_calls
  obtain ⟨_, _, unchanged, _, _⟩ := each [] refusedCall [servedCall, silentCall] rfl
  obtain ⟨_, _, _, stays, _⟩ := each [refusedCall] servedCall [silentCall] rfl
  have gives : servedCall.Gives "i" sampleIssuer := ⟨sampleLeaf_location, rfl⟩
  obtain ⟨same, silent⟩ :=
    stays "i" sampleIssuer gives silentCall List.mem_cons_self sampleLeaf_location
  exact ⟨changingNetwork_calls, rfl, unchanged _ rfl, gives, same, silent⟩

end Resolutions

end CertificateAudit
