import CertificateAudit.Calendar.Date

/-!
The two status values of a responder's answer: how the responder fared with the request, and
what it says about the certificate.
-/

namespace CertificateAudit.Ocsp

open CertificateAudit.Calendar

inductive ResponderStatus where
  | successful | malformedRequest | internalError | tryLater | sigRequired | unauthorized
deriving DecidableEq

namespace ResponderStatus

/-- The status with the given number; 4 and everything above 6 have none. -/
def ofCode? : Nat → Option ResponderStatus
  | 0 => some .successful
  | 1 => some .malformedRequest
  | 2 => some .internalError
  | 3 => some .tryLater
  | 5 => some .sigRequired
  | 6 => some .unauthorized
  | _ => none

def name : ResponderStatus → String
  | .successful => "successful"
  | .malformedRequest => "malformedRequest"
  | .internalError => "internalError"
  | .tryLater => "tryLater"
  | .sigRequired => "sigRequired"
  | .unauthorized => "unauthorized"

end ResponderStatus

inductive CertStatus where
  | good
  | revoked (time : Moment) (reason : Option String)
  | unknown
deriving DecidableEq

/-- The name of a revocation reason; a number without a name is written out. -/
def reasonName (code : UInt8) : String :=
  match code.toNat with
  | 0 => "unspecified"
  | 1 => "keyCompromise"
  | 2 => "cACompromise"
  | 3 => "affiliationChanged"
  | 4 => "superseded"
  | 5 => "cessationOfOperation"
  | 6 => "certificateHold"
  | 8 => "removeFromCRL"
  | 9 => "privilegeWithdrawn"
  | 10 => "aACompromise"
  | n => "reason " ++ toString n

end CertificateAudit.Ocsp
