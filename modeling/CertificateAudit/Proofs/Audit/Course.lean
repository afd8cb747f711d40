import CertificateAudit.Proofs.Audit.Conversation

/-!
The courses that an audit can take. Each relation below lists every way in which one function
of an audit can end, with the exchanges made, the value given and the cache left behind; the
theorems `…_proceeds` say that in every world the function takes one of its courses. Whatever
holds of all courses therefore holds of all audits.
-/

namespace CertificateAudit

open CertificateAudit.Audit CertificateAudit.Calendar CertificateAudit.Http

variable {State : Type}

/-- How the issuer of a certificate is resolved. -/
inductive IssuerCourse (certificate : Certificate) (cache : IssuerCache) :
    List Exchange → Except RevocationError Issuer → IssuerCache → Prop where
  | unlocated {error} :
      certificate.location .caIssuers = .error error →
      IssuerCourse certificate cache [] (.error error) cache
  | known {url issuer} :
      certificate.location .caIssuers = .ok url →
      cache.find? url = some issuer →
      IssuerCourse certificate cache [] (.ok issuer) cache
  | failed {url reply error} :
      certificate.location .caIssuers = .ok url →
      cache.find? url = none →
      Issuer.ofReply url reply = .error error →
      IssuerCourse certificate cache [⟨Issuer.request url, reply⟩] (.error error) cache
  | fetched {url reply issuer} :
      certificate.location .caIssuers = .ok url →
      cache.find? url = none →
      Issuer.ofReply url reply = .ok issuer →
      IssuerCourse certificate cache [⟨Issuer.request url, reply⟩] (.ok issuer)
        (cache.keep url issuer)

theorem Certificate.resolveIssuer_proceeds (network : Network State)
    (certificate : Certificate) (cache : IssuerCache) :
    Proceeds network (certificate.resolveIssuer (World.send network) cache)
      fun made told result =>
        told = [] ∧ IssuerCourse certificate cache made result.1 result.2 := by
  unfold Certificate.resolveIssuer
  cases located : certificate.location .caIssuers with
  | error error => exact .pure ⟨rfl, .unlocated located⟩
  | ok url =>
      dsimp only
      cases found : cache.find? url with
      | some issuer => exact .pure ⟨rfl, .known located found⟩
      | none =>
          refine .bind (.send (Issuer.request url)) ?_
          rintro _ _ reply ⟨rfl, rfl⟩
          cases decoded : Issuer.ofReply url reply with
          | error error => exact .pure ⟨rfl, .failed located found decoded⟩
          | ok issuer => exact .pure ⟨rfl, .fetched located found decoded⟩

namespace Revocation

/-- How the status of a certificate is found out. -/
inductive StatusCourse (der : List UInt8) (cache : IssuerCache) :
    List Exchange → Except RevocationError Ocsp.CertStatus → IssuerCache → Prop where
  | unreadable :
      Certificate.ofDer? der = none →
      StatusCourse der cache [] (.error .badCertificate) cache
  | noResponder {certificate error} :
      Certificate.ofDer? der = some certificate →
      certificate.location .ocsp = .error error →
      StatusCourse der cache [] (.error error) cache
  | noIssuer {certificate url made error cache'} :
      Certificate.ofDer? der = some certificate →
      certificate.location .ocsp = .ok url →
      IssuerCourse certificate cache made (.error error) cache' →
      StatusCourse der cache made (.error error) cache'
  | badIssuer {certificate url made issuer cache'} :
      Certificate.ofDer? der = some certificate →
      certificate.location .ocsp = .ok url →
      IssuerCourse certificate cache made (.ok issuer) cache' →
      Certificate.ofDer? issuer.der = none →
      StatusCourse der cache made (.error .badIssuer) cache'
  | asked {certificate url made issuer issuerCertificate reply cache'} :
      Certificate.ofDer? der = some certificate →
      certificate.location .ocsp = .ok url →
      IssuerCourse certificate cache made (.ok issuer) cache' →
      Certificate.ofDer? issuer.der = some issuerCertificate →
      StatusCourse der cache
        (made ++ [⟨responderRequest url (Ocsp.request certificate issuerCertificate), reply⟩])
        (statusOf url certificate.serial reply) cache'

theorem askResponder_proceeds (network : Network State) (url : String)
    (certificate : Certificate) (issuer : Issuer) :
    Proceeds network (askResponder (World.send network) url certificate issuer)
      fun made told status => told = [] ∧
        ((Certificate.ofDer? issuer.der = none ∧ made = [] ∧ status = .error .badIssuer) ∨
          ∃ issuerCertificate reply, Certificate.ofDer? issuer.der = some issuerCertificate ∧
            made = [⟨responderRequest url (Ocsp.request certificate issuerCertificate), reply⟩] ∧
            status = statusOf url certificate.serial reply) := by
  unfold askResponder
  cases decoded : Certificate.ofDer? issuer.der with
  | none => exact .pure ⟨rfl, .inl ⟨rfl, rfl, rfl⟩⟩
  | some issuerCertificate =>
      refine .bind (.send _) ?_
      rintro _ _ reply ⟨rfl, rfl⟩
      exact .pure ⟨rfl, .inr ⟨issuerCertificate, reply, rfl, rfl, rfl⟩⟩

theorem certificateStatus_proceeds (network : Network State) (der : List UInt8)
    (cache : IssuerCache) :
    Proceeds network (certificateStatus (World.send network) der cache)
      fun made told result => told = [] ∧ StatusCourse der cache made result.1 result.2 := by
  unfold certificateStatus
  cases read : Certificate.ofDer? der with
  | none => exact .pure ⟨rfl, .unreadable read⟩
  | some certificate =>
      dsimp only
      cases located : certificate.location .ocsp with
      | error error => exact .pure ⟨rfl, .noResponder read located⟩
      | ok url =>
          refine .bind (certificate.resolveIssuer_proceeds network cache) ?_
          rintro made _ ⟨issuer, cache'⟩ ⟨rfl, resolved⟩
          cases issuer with
          | error error =>
              refine .pure ⟨rfl, ?_⟩
              rw [List.append_nil]
              exact .noIssuer read located resolved
          | ok issuer =>
              refine .bind (askResponder_proceeds network url certificate issuer) ?_
              rintro _ _ status ⟨rfl, ⟨unreadable, rfl, rfl⟩ | ⟨_, reply, decoded, rfl, rfl⟩⟩
              · refine .pure ⟨rfl, ?_⟩
                rw [List.append_nil, List.append_nil]
                exact .badIssuer read located resolved unreadable
              · refine .pure ⟨rfl, ?_⟩
                rw [List.append_nil]
                exact .asked read located resolved decoded

/-- The verdict for a date on a certificate whose status was, or was not, found out. -/
def verdictFor (date : Date) (status : Except RevocationError Ocsp.CertStatus) : Verdict :=
  verdictOf (status.map fun status => Verdict.ofStatus status date)

theorem tryCheck_proceeds (network : Network State) (der : List UInt8) (date : Date)
    (cache : IssuerCache) :
    Proceeds network (tryCheck (World.send network) der date cache) fun made told result =>
      told = [] ∧ ∃ status, StatusCourse der cache made status result.2 ∧
        verdictOf result.1 = verdictFor date status := by
  unfold tryCheck
  refine .bind (certificateStatus_proceeds network der cache) ?_
  rintro made _ ⟨status, cache'⟩ ⟨rfl, course⟩
  refine .pure ⟨rfl, status, ?_, rfl⟩
  rw [List.append_nil]
  exact course

theorem check_proceeds (network : Network State) (der : List UInt8) (date : Date)
    (cache : IssuerCache) :
    Proceeds network (check (World.send network) der date cache) fun made told result =>
      told = [] ∧ ∃ status, StatusCourse der cache made status result.2 ∧
        result.1 = verdictFor date status := by
  unfold check
  refine .bind (tryCheck_proceeds network der date cache) ?_
  rintro made _ ⟨verdict, cache'⟩ ⟨rfl, status, course, same⟩
  refine .pure ⟨rfl, status, ?_, same⟩
  rw [List.append_nil]
  exact course

end Revocation

theorem Log.fetch_proceeds (network : Network State) (settings : Settings)
    (candidate : Candidate) :
    Proceeds network (Log.fetch (World.send network) settings candidate) fun made told result =>
      told = [] ∧ ∃ reply, made = [⟨Log.bodyRequest settings candidate.id, reply⟩] ∧
        result = Log.recordOf (Log.bodyRequest settings candidate.id).url candidate reply := by
  unfold Log.fetch
  refine .bind (.send _) ?_
  rintro _ _ reply ⟨rfl, rfl⟩
  exact .pure ⟨rfl, reply, rfl, rfl⟩

namespace Audit

/-- How one candidate is audited. Here the events are part of the course. -/
inductive CandidateCourse (settings : Settings) (date : Date) (candidate : Candidate)
    (cache : IssuerCache) : List Exchange → List Event → Outcome → IssuerCache → Prop where
  | skipped {reply error} :
      Log.recordOf (Log.bodyRequest settings candidate.id).url candidate reply = .error error →
      CandidateCourse settings date candidate cache
        [⟨Log.bodyRequest settings candidate.id, reply⟩]
        [.fetching candidate.id, .fetchFailed candidate.id error.message]
        (.skipped candidate error.message) cache
  | judged {reply record made status cache'} :
      Log.recordOf (Log.bodyRequest settings candidate.id).url candidate reply = .ok record →
      Revocation.StatusCourse record.der cache made status cache' →
      CandidateCourse settings date candidate cache
        (⟨Log.bodyRequest settings candidate.id, reply⟩ :: made)
        [.fetching candidate.id,
          .verdictReached record.id record.subject (Revocation.verdictFor date status)]
        (.ofVerdict record (Revocation.verdictFor date status)) cache'

theorem auditCandidate_proceeds (network : Network State) (settings : Settings) (date : Date)
    (candidate : Candidate) (cache : IssuerCache) :
    Proceeds network (auditCandidate (World.environment network) settings date candidate cache)
      fun made told result =>
        CandidateCourse settings date candidate cache made told result.1 result.2 := by
  unfold auditCandidate
  refine .bind (.notify _) ?_
  rintro _ _ _ ⟨rfl, rfl⟩
  refine .bind (Log.fetch_proceeds network settings candidate) ?_
  rintro _ _ _ ⟨rfl, reply, rfl, rfl⟩
  cases read : Log.recordOf (Log.bodyRequest settings candidate.id).url candidate reply with
  | error error =>
      refine .bind (.notify _) ?_
      rintro _ _ _ ⟨rfl, rfl⟩
      exact .pure (.skipped read)
  | ok record =>
      refine .bind (Revocation.check_proceeds network record.der date cache) ?_
      rintro made _ ⟨_, cache'⟩ ⟨rfl, status, found, rfl⟩
      refine .bind (.notify _) ?_
      rintro _ _ _ ⟨rfl, rfl⟩
      refine .pure ?_
      simp only [List.append_nil]
      exact .judged read found

/-- How candidates are audited one after the other: the exchanges and events of each, its
outcome, and the cache at the end. -/
inductive AuditCourse (settings : Settings) (date : Date) :
    List Candidate → IssuerCache → List (List Exchange) → List (List Event) → List Outcome →
      IssuerCache → Prop where
  | done {cache} : AuditCourse settings date [] cache [] [] [] cache
  | next {candidate rest cache made told outcome middle segments tellings outcomes cache'} :
      CandidateCourse settings date candidate cache made told outcome middle →
      AuditCourse settings date rest middle segments tellings outcomes cache' →
      AuditCourse settings date (candidate :: rest) cache (made :: segments) (told :: tellings)
        (outcome :: outcomes) cache'

theorem auditAll_proceeds (network : Network State) (settings : Settings) (date : Date)
    (candidates : List Candidate) (cache : IssuerCache) :
    Proceeds network (auditAll (World.environment network) settings date candidates cache)
      fun made told result => ∃ segments tellings,
        made = segments.flatten ∧ told = tellings.flatten ∧
          AuditCourse settings date candidates cache segments tellings result.1 result.2 := by
  induction candidates generalizing cache with
  | nil => exact .pure ⟨[], [], rfl, rfl, .done⟩
  | cons candidate rest inductionHypothesis =>
      rw [auditAll]
      refine .bind (auditCandidate_proceeds network settings date candidate cache) ?_
      rintro made told ⟨outcome, middle⟩ course
      refine .bind (inductionHypothesis middle) ?_
      rintro _ _ ⟨outcomes, cache'⟩ ⟨segments, tellings, rfl, rfl, courses⟩
      refine .pure ⟨made :: segments, told :: tellings, ?_, ?_, .next course courses⟩
      · rw [List.append_nil, List.flatten_cons]
      · rw [List.append_nil, List.flatten_cons]

end Audit

end CertificateAudit
