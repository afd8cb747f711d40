import CertificateAudit.Audit.Run

/-!
An audit does nothing but what its environment does for it. If two environments answer alike
from related states and leave related states, then so do their audits: `Environment.Agrees.run`.
-/

namespace CertificateAudit

open CertificateAudit.Calendar CertificateAudit.Http CertificateAudit.Store
open CertificateAudit.Text

variable {σ τ α β : Type}

/-- From related states the programs give the same value and end in related states. -/
def Agree (related : σ → τ → Prop) (program : StateM σ α) (other : StateM τ α) : Prop :=
  ∀ state state', related state state' →
    (program state).1 = (other state').1 ∧ related (program state).2 (other state').2

namespace Agree

variable {related : σ → τ → Prop}

theorem pure (value : α) :
    Agree related (Pure.pure value : StateM σ α) (Pure.pure value : StateM τ α) :=
  fun _ _ start => ⟨rfl, start⟩

theorem bind_apply (program : StateM σ α) (next : α → StateM σ β) (state : σ) :
    (program >>= next) state = next (program state).1 (program state).2 := rfl

theorem bind {program : StateM σ α} {other : StateM τ α} {next : α → StateM σ β}
    {otherNext : α → StateM τ β} (first : Agree related program other)
    (behind : ∀ value, Agree related (next value) (otherNext value)) :
    Agree related (program >>= next) (other >>= otherNext) := by
  intro state state' start
  obtain ⟨same, middle⟩ := first state state' start
  have later := behind (program state).1 (program state).2 (other state').2 middle
  rw [bind_apply, bind_apply, ← same]
  exact later

end Agree

section

variable {related : σ → τ → Prop} {send : Request → StateM σ Reply}
  {send' : Request → StateM τ Reply}
  (sends : ∀ request, Agree related (send request) (send' request))
include sends

theorem Log.search_agrees (settings : Settings) (domain : String) :
    Agree related (search send settings domain) (search send' settings domain) :=
  (sends _).bind fun _ => .pure _

theorem Log.fetch_agrees (settings : Settings) (candidate : Candidate) :
    Agree related (fetch send settings candidate) (fetch send' settings candidate) :=
  (sends _).bind fun _ => .pure _

theorem Certificate.resolveIssuer_agrees (certificate : Certificate) (cache : IssuerCache) :
    Agree related (certificate.resolveIssuer send cache)
      (certificate.resolveIssuer send' cache) := by
  unfold resolveIssuer
  split
  next => exact .pure _
  next =>
    split
    next => exact .pure _
    next =>
      refine (sends _).bind fun reply => ?_
      split <;> exact .pure _

namespace Revocation

theorem askResponder_agrees (url : String) (certificate : Certificate) (issuer : Issuer) :
    Agree related (askResponder send url certificate issuer)
      (askResponder send' url certificate issuer) := by
  unfold askResponder
  split
  next => exact .pure _
  next => exact (sends _).bind fun _ => .pure _

theorem certificateStatus_agrees (der : List UInt8) (cache : IssuerCache) :
    Agree related (certificateStatus send der cache) (certificateStatus send' der cache) := by
  unfold certificateStatus
  split
  next => exact .pure _
  next certificate _ =>
    split
    next => exact .pure _
    next url _ =>
      refine (certificate.resolveIssuer_agrees sends cache).bind fun (issuer, cache) => ?_
      cases issuer with
      | error error => exact .pure _
      | ok issuer =>
          exact (askResponder_agrees sends url certificate issuer).bind fun _ => .pure _

theorem check_agrees (der : List UInt8) (date : Date) (cache : IssuerCache) :
    Agree related (check send der date cache) (check send' der date cache) := by
  refine Agree.bind ?_ fun _ => .pure _
  exact (certificateStatus_agrees sends der cache).bind fun _ => .pure _

end Revocation

end

namespace Audit

/-- Whatever can be done in the one environment is done alike in the other. -/
structure Environment.Agrees (related : σ → τ → Prop) (environment : Environment (StateM σ))
    (other : Environment (StateM τ)) : Prop where
  send : ∀ request, Agree related (environment.send request) (other.send request)
  createDirectories : ∀ path,
    Agree related (environment.disk.createDirectories path) (other.disk.createDirectories path)
  writeFile : ∀ path content,
    Agree related (environment.disk.writeFile path content) (other.disk.writeFile path content)
  notify : ∀ event, Agree related (environment.notify event) (other.notify event)

namespace Environment.Agrees

variable {related : σ → τ → Prop} {environment : Environment (StateM σ)}
  {other : Environment (StateM τ)} (agrees : environment.Agrees related other)
include agrees

theorem auditCandidate (settings : Settings) (date : Date) (candidate : Candidate)
    (cache : IssuerCache) :
    Agree related (Audit.auditCandidate environment settings date candidate cache)
      (Audit.auditCandidate other settings date candidate cache) := by
  refine (agrees.notify _).bind fun _ => ?_
  refine (Log.fetch_agrees agrees.send settings candidate).bind fun record => ?_
  cases record with
  | error error => exact (agrees.notify _).bind fun _ => .pure _
  | ok record =>
      refine (Revocation.check_agrees agrees.send record.der date cache).bind fun _ => ?_
      exact (agrees.notify _).bind fun _ => .pure _

theorem auditAll (settings : Settings) (date : Date) (candidates : List Candidate)
    (cache : IssuerCache) :
    Agree related (Audit.auditAll environment settings date candidates cache)
      (Audit.auditAll other settings date candidates cache) := by
  induction candidates generalizing cache with
  | nil => exact .pure _
  | cons candidate candidates inductionHypothesis =>
      refine (agrees.auditCandidate settings date candidate cache).bind fun _ => ?_
      exact (inductionHypothesis _).bind fun _ => .pure _

theorem findCandidates (settings : Settings) (domain : String) :
    Agree related (Audit.findCandidates environment settings domain)
      (Audit.findCandidates other settings domain) := by
  refine (agrees.notify _).bind fun _ => ?_
  refine (Log.search_agrees agrees.send settings domain).bind fun candidates => ?_
  cases candidates with
  | error error => exact (agrees.notify _).bind fun _ => .pure _
  | ok candidates => exact .pure _

theorem saveFrom (directory : RawText) (label : String) (index : Nat) (ders : List (List UInt8)) :
    Agree related (Store.saveFrom environment.disk directory label index ders)
      (Store.saveFrom other.disk directory label index ders) := by
  induction ders generalizing index with
  | nil => exact .pure _
  | cons der ders inductionHypothesis =>
      refine (agrees.writeFile _ _).bind fun written => ?_
      cases written with
      | error failure => exact .pure _
      | ok done =>
          refine (inductionHypothesis _).bind fun saved => ?_
          cases saved <;> exact .pure _

theorem save (base : RawText) (domain : String) (date : Date) (ders : List (List UInt8)) :
    Agree related (Store.save environment.disk base domain date ders)
      (Store.save other.disk base domain date ders) := by
  refine (agrees.createDirectories _).bind fun made => ?_
  cases made with
  | error failure => exact .pure _
  | ok done => exact agrees.saveFrom _ _ _ _

theorem tellSaved (paths : List RawText) :
    Agree related (Audit.tellSaved environment paths) (Audit.tellSaved other paths) := by
  induction paths with
  | nil => exact .pure _
  | cons path paths inductionHypothesis =>
      exact (agrees.notify _).bind fun _ => inductionHypothesis

theorem run (settings : Settings) (domain : String) (date : Date) (cache : IssuerCache) :
    Agree related (Audit.run environment settings domain date cache)
      (Audit.run other settings domain date cache) := by
  refine (agrees.findCandidates settings domain).bind fun candidates => ?_
  refine (agrees.notify _).bind fun _ => ?_
  refine (agrees.auditAll settings date _ cache).bind fun (outcomes, cache) => ?_
  refine (agrees.save _ _ _ _).bind fun saved => ?_
  cases saved with
  | error error => exact .pure _
  | ok paths => exact (agrees.tellSaved paths).bind fun _ => .pure _

end Environment.Agrees

end Audit

end CertificateAudit
