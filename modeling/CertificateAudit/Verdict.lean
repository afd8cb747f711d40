import CertificateAudit.Ocsp.Status

/-!
What an audit concludes about a certificate on its date. A revocation counts only from its
day on.
-/

namespace CertificateAudit

open CertificateAudit.Calendar

inductive Verdict where
  | good
  /-- Revoked on the audit date or before it. -/
  | revokedBefore (revokedOn : Date) (reason : Option String)
  | revokedLater (revokedOn : Date) (reason : Option String)
  | unknown (reason : String)
deriving DecidableEq

namespace Verdict

/-- The conclusion from a responder's status. Only the day of a revocation is compared. -/
def ofStatus (status : Ocsp.CertStatus) (date : Date) : Verdict :=
  match status with
  | .good => .good
  | .revoked time reason =>
      if date < time.date then .revokedLater time.date reason
      else .revokedBefore time.date reason
  | .unknown => .unknown "Responder reported unknown status"

def isValid : Verdict → Bool
  | .good | .revokedLater _ _ => true
  | .revokedBefore _ _ | .unknown _ => false

def isUnknown : Verdict → Bool
  | .unknown _ => true
  | _ => false

def revocationText (revokedOn : Date) (reason : Option String) : String :=
  match reason with
  | some reason => revokedOn.text ++ " (" ++ reason ++ ")"
  | none => revokedOn.text

def text : Verdict → String
  | .good => "Good"
  | .revokedBefore revokedOn reason => "Revoked on " ++ revocationText revokedOn reason
  | .revokedLater revokedOn reason => "Revoked later, on " ++ revocationText revokedOn reason
  | .unknown reason => "Unknown (" ++ reason ++ ")"

end Verdict

end CertificateAudit
