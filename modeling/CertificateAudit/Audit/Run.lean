import CertificateAudit.Audit.Event
import CertificateAudit.Revocation.Check
import CertificateAudit.Store.Save

/-!
The audit itself: search, pick the candidates valid on the date, fetch and check each in turn,
save the accepted ones. Failures about single certificates become outcomes; only a failure to
save ends an audit without a report.
-/

namespace CertificateAudit.Audit

open CertificateAudit.Calendar CertificateAudit.Http CertificateAudit.Store CertificateAudit.Text

structure Environment (m : Type → Type) where
  send : Request → m Reply
  disk : Disk m
  notify : Event → m Unit

variable {m : Type → Type} [Monad m]

def auditCandidate (environment : Environment m) (settings : Settings) (date : Date)
    (candidate : Candidate) (cache : IssuerCache) : m (Outcome × IssuerCache) := do
  environment.notify (.fetching candidate.id)
  match ← Log.fetch environment.send settings candidate with
  | .error error =>
      environment.notify (.fetchFailed candidate.id error.message)
      pure (.skipped candidate error.message, cache)
  | .ok record =>
      let (verdict, cache) ← Revocation.check environment.send record.der date cache
      environment.notify (.verdictReached record.id record.subject verdict)
      pure (.ofVerdict record verdict, cache)

def auditAll (environment : Environment m) (settings : Settings) (date : Date) :
    List Candidate → IssuerCache → m (List Outcome × IssuerCache)
  | [], cache => pure ([], cache)
  | candidate :: rest, cache => do
      let (outcome, cache) ← auditCandidate environment settings date candidate cache
      let (outcomes, cache) ← auditAll environment settings date rest cache
      pure (outcome :: outcomes, cache)

/-- Search for a domain; a failure is told and counts as an empty list. -/
def findCandidates (environment : Environment m) (settings : Settings) (domain : String) :
    m (List Candidate) := do
  environment.notify .searchStarted
  match ← Log.search environment.send settings domain with
  | .ok candidates => pure candidates
  | .error error =>
      environment.notify (.searchFailed error.message)
      pure []

def tellSaved (environment : Environment m) : List RawText → m Unit
  | [] => pure ()
  | path :: paths => do
      environment.notify (.saved path)
      tellSaved environment paths

/-- Audit a domain for a date. The cache outlives the audit. -/
def run (environment : Environment m) (settings : Settings) (domain : String) (date : Date)
    (cache : IssuerCache) : m (Except SaveError Report × IssuerCache) := do
  let candidates ← findCandidates environment settings domain
  let inWindow := Candidate.inWindow candidates date
  environment.notify (.searchComplete candidates.length inWindow.length)
  let (outcomes, cache) ← auditAll environment settings date inWindow cache
  let ders := (outcomes.filterMap Outcome.accepted?).map Record.der
  match ← save environment.disk settings.directory domain date ders with
  | .error error => pure (.error error, cache)
  | .ok saved => do
      tellSaved environment saved
      pure (.ok {
        domain
        date
        totalCandidates := candidates.length
        inWindow := inWindow.length
        outcomes
        saved }, cache)

end CertificateAudit.Audit
