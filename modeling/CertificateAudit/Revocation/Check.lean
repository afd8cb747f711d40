import CertificateAudit.Ocsp.Request
import CertificateAudit.Revocation.Issuer
import CertificateAudit.Verdict

/-!
The revocation check: the responder that a certificate names is asked about it, and its answer
is judged for a date. `Revocation.check` never fails; what went wrong becomes the reason of an
unknown verdict.
-/

namespace CertificateAudit.Revocation

open CertificateAudit.Calendar CertificateAudit.Http

def responderRequest (url : String) (question : List UInt8) : Request where
  method := .post
  url := url
  userAgent := none
  accept := "application/ocsp-response"
  contentType := some "application/ocsp-request"
  body := question

def statusOf (url : String) (serial : List UInt8) (reply : Reply) :
    Except RevocationError Ocsp.CertStatus :=
  match bodyOf reply with
  | .error failure => .error (.request url failure)
  | .ok body =>
      match Ocsp.certStatus body serial with
      | .ok status => .ok status
      | .error fault => .error (.protocol fault)

variable {m : Type → Type} [Monad m]

def askResponder (send : Request → m Reply) (url : String) (certificate : Certificate)
    (issuer : Issuer) : m (Except RevocationError Ocsp.CertStatus) :=
  match Certificate.ofDer? issuer.der with
  | none => pure (.error .badIssuer)
  | some issuerCertificate => do
      let reply ← send (responderRequest url (Ocsp.request certificate issuerCertificate))
      pure (statusOf url certificate.serial reply)

/-- The status of a certificate. The responder's URL comes first, then the issuer, and only
then is the responder asked. -/
def certificateStatus (send : Request → m Reply) (der : List UInt8) (cache : IssuerCache) :
    m (Except RevocationError Ocsp.CertStatus × IssuerCache) :=
  match Certificate.ofDer? der with
  | none => pure (.error .badCertificate, cache)
  | some certificate =>
      match certificate.location .ocsp with
      | .error error => pure (.error error, cache)
      | .ok url => do
          let (issuer, cache) ← certificate.resolveIssuer send cache
          match issuer with
          | .error error => pure (.error error, cache)
          | .ok issuer => do
              let status ← askResponder send url certificate issuer
              pure (status, cache)

def tryCheck (send : Request → m Reply) (der : List UInt8) (date : Date)
    (cache : IssuerCache) : m (Except RevocationError Verdict × IssuerCache) := do
  let (status, cache) ← certificateStatus send der cache
  pure (status.map fun status => Verdict.ofStatus status date, cache)

/-- The verdict, with any failure as the reason of an unknown one. -/
def verdictOf : Except RevocationError Verdict → Verdict
  | .ok verdict => verdict
  | .error error => .unknown error.message

def check (send : Request → m Reply) (der : List UInt8) (date : Date)
    (cache : IssuerCache) : m (Verdict × IssuerCache) := do
  let (verdict, cache) ← tryCheck send der date cache
  pure (verdictOf verdict, cache)

end CertificateAudit.Revocation
