import CertificateAudit.Candidate
import CertificateAudit.Http.Message
import CertificateAudit.Pem.Certificate
import CertificateAudit.Settings

/-!
Asking the log: the search for a domain, and the certificate behind an identifier.
-/

namespace CertificateAudit

open CertificateAudit.Calendar CertificateAudit.Http CertificateAudit.Text

/-- A certificate as the log serves it. -/
structure Record where
  id : Int
  notBefore : Date
  notAfter : Date
  subject : String
  pem : String
  der : List UInt8
deriving DecidableEq

def requestFailedText (url message : String) : String :=
  "Request to " ++ url ++ " failed: " ++ message

inductive LogError where
  | request (url : String) (failure : RequestFailure)
  | badListing
  | badCertificate (error : Pem.CertificateTextError)
deriving DecidableEq

namespace LogError

def unreadableText (message : String) : String :=
  "Failed to parse CT data: " ++ message

def message : LogError → String
  | .request url failure => requestFailedText url failure.message
  | .badListing => unreadableText "Failed to parse CT log response: not a list of entries"
  | .badCertificate error => unreadableText error.message

end LogError

namespace Log

/-- The base of all URLs of the log: slashes at its end do not count. -/
def baseUrl (settings : Settings) : String :=
  String.ofList (dropEndWhile (· == '/') settings.baseUrl.toList)

def searchRequest (settings : Settings) (domain : String) : Request where
  method := .get
  url := baseUrl settings ++ "/?match==&q=" ++ domain ++ "&output=json"
  userAgent := some settings.userAgent
  accept := "*/*"
  contentType := none
  body := []

def bodyRequest (settings : Settings) (id : Int) : Request where
  method := .get
  url := baseUrl settings ++ "/?d=" ++ toString id
  userAgent := some settings.userAgent
  accept := "*/*"
  contentType := none
  body := []

/-- The candidates in what came of a search. A response that reports no success counts as an
empty list. -/
def candidatesOf (url : String) (reply : Reply) : Except LogError (List Candidate) :=
  match bodyOf reply with
  | .error (.status _) => .ok []
  | .error failure => .error (.request url failure)
  | .ok body =>
      match Candidate.readListing (String.ofList (Utf8.decodeLossy body)) with
      | some candidates => .ok candidates
      | none => .error .badListing

def recordOf (url : String) (candidate : Candidate) (reply : Reply) : Except LogError Record :=
  match bodyOf reply with
  | .error failure => .error (.request url failure)
  | .ok body =>
      let pem := String.ofList (Utf8.decodeLossy body)
      match Pem.readCertificate pem with
      | .error error => .error (.badCertificate error)
      | .ok (der, subject) => .ok {
          id := candidate.id
          notBefore := candidate.notBefore
          notAfter := candidate.notAfter
          subject
          pem
          der }

variable {m : Type → Type} [Monad m]

def search (send : Request → m Reply) (settings : Settings) (domain : String) :
    m (Except LogError (List Candidate)) := do
  let request := searchRequest settings domain
  let reply ← send request
  pure (candidatesOf request.url reply)

def fetch (send : Request → m Reply) (settings : Settings) (candidate : Candidate) :
    m (Except LogError Record) := do
  let request := bodyRequest settings candidate.id
  let reply ← send request
  pure (recordOf request.url candidate reply)

end Log

end CertificateAudit
