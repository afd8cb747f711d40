import CertificateAudit.Certificate.Access
import CertificateAudit.Log.Client
import CertificateAudit.Ocsp.Response

/-!
Issuers: fetched from the URL that a certificate names and, if wanted, kept for the next
certificate that names the same URL. Only an issuer that was fetched and could be read is kept.
-/

namespace CertificateAudit

open CertificateAudit.Http

structure Issuer where
  url : String
  subject : String
  der : List UInt8
deriving DecidableEq

inductive RevocationError where
  | request (url : String) (failure : RequestFailure)
  | badCertificate
  | badIssuer
  | badIssuerFrom (url : String)
  | access (error : AccessError)
  | protocol (fault : Ocsp.Fault)
deriving DecidableEq

namespace RevocationError

def certificateText (message : String) : String :=
  "Failed to parse certificate data: " ++ message

def extensionText (extension : String) : String :=
  "Certificate missing required extension: " ++ extension

def protocolText (message : String) : String :=
  "OCSP protocol error: " ++ message

def message : RevocationError → String
  | .request url failure => requestFailedText url failure.message
  | .badCertificate =>
      certificateText "Failed to parse certificate: Error(malformed certificate)"
  | .badIssuer =>
      certificateText "Failed to parse issuer certificate: Error(malformed certificate)"
  | .badIssuerFrom url =>
      certificateText ("Failed to parse issuer certificate from " ++ url ++
        ": Error(malformed certificate)")
  | .access .noExtension => extensionText "Authority Information Access"
  | .access .malformed =>
      certificateText "Malformed Authority Information Access extension"
  | .access (.noDescriptor method) => extensionText method.descriptorName
  | .protocol fault => protocolText fault.message

end RevocationError

def Certificate.location (certificate : Certificate) (method : AccessMethod) :
    Except RevocationError String :=
  match certificate.accessUrl method with
  | .ok url => .ok url
  | .error error => .error (.access error)

namespace Issuer

def decode (url : String) (der : List UInt8) : Except RevocationError Issuer :=
  match Certificate.ofDer? der with
  | some certificate => .ok ⟨url, certificate.subject.text, der⟩
  | none => .error (.badIssuerFrom url)

def request (url : String) : Request where
  method := .get
  url := url
  userAgent := none
  accept := "*/*"
  contentType := none
  body := []

/-- The issuer in what came of the request for it. -/
def ofReply (url : String) (reply : Reply) : Except RevocationError Issuer :=
  match bodyOf reply with
  | .error failure => .error (.request url failure)
  | .ok body => decode url body

end Issuer

/-- The issuers kept for later, under the URLs as certificates name them. -/
structure IssuerCache where
  enabled : Bool
  known : List (String × Issuer) := []
deriving DecidableEq

namespace IssuerCache

def find? (url : String) (cache : IssuerCache) : Option Issuer :=
  if cache.enabled then cache.known.lookup url else none

def keep (url : String) (issuer : Issuer) (cache : IssuerCache) : IssuerCache :=
  if cache.enabled then { cache with known := cache.known ++ [(url, issuer)] } else cache

end IssuerCache

variable {m : Type → Type} [Monad m]

/-- The issuer of a certificate, from the cache or from the URL that the certificate names. -/
def Certificate.resolveIssuer (send : Request → m Reply) (certificate : Certificate)
    (cache : IssuerCache) : m (Except RevocationError Issuer × IssuerCache) :=
  match certificate.location .caIssuers with
  | .error error => pure (.error error, cache)
  | .ok url =>
      match cache.find? url with
      | some issuer => pure (.ok issuer, cache)
      | none => do
          let reply ← send (Issuer.request url)
          match Issuer.ofReply url reply with
          | .error error => pure (.error error, cache)
          | .ok issuer => pure (.ok issuer, cache.keep url issuer)

end CertificateAudit
