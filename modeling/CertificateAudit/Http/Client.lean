import CertificateAudit.Http.Message
import CertificateAudit.Url.Basic

/-!
A client on top of single exchanges over a connection: it normalises URLs and follows
redirects. `Transport.network` makes a network of anything that carries out exchanges.
-/

namespace CertificateAudit.Http

structure WireRequest where
  method : Method
  url : Url
  userAgent : Option String
  accept : String
  contentType : Option String
  body : List UInt8
deriving DecidableEq

structure WireResponse where
  status : Nat
  location : Option String
  body : Option (List UInt8)
deriving DecidableEq

/-- Something that carries out single exchanges; one without a response failed. -/
structure Transport (State : Type) where
  carry : WireRequest → State → Option WireResponse × State

def redirectLimit : Nat := 10

def isHeaderText (text : String) : Bool :=
  text.toList.all fun c => c == '\t' || (' ' ≤ c && c != '\x7f')

def WireResponse.redirect? (response : WireResponse) (base : Url) : Option Url :=
  if [301, 302, 303, 307, 308].contains response.status then
    response.location.bind base.follow?
  else none

/-- The request that follows a redirect. Only the codes 307 and 308 keep the method and body
of a request that is not a GET. -/
def WireRequest.redirected (request : WireRequest) (status : Nat) (url : Url) : WireRequest :=
  let url := url.anonymous
  if status = 307 ∨ status = 308 then { request with url }
  else { request with method := .get, url, contentType := none, body := [] }

variable {State : Type}

def Transport.follow (transport : Transport State) :
    (left : Nat) → WireRequest → State → Reply × State
  | left, request, state =>
      if request.url.isWeb then
        match transport.carry request state with
        | (none, state) => (.error (.unreachable request.url.text), state)
        | (some response, state) =>
            match response.redirect? request.url with
            | none => (.ok ⟨response.status, response.body⟩, state)
            | some url =>
                match left with
                | 0 => (.error (.redirects request.url.text), state)
                | left + 1 =>
                    Transport.follow transport left (request.redirected response.status url) state
      else (.error (.notWeb request.url.text), state)

/-- Put a request together. A URL that names no host is refused before its headers are looked
at. -/
def WireRequest.ofRequest (request : Request) : Except SendError WireRequest :=
  match Url.read? request.url with
  | none => .error .malformed
  | some url =>
      if !url.hasHost then .error (.notWeb url.text)
      else if (request.userAgent.map isHeaderText).getD true then
        .ok {
          method := request.method
          url := url.anonymous
          userAgent := request.userAgent
          accept := request.accept
          contentType := request.contentType
          body := request.body }
      else .error .malformed

def Transport.network (transport : Transport State) : Network State where
  answer request state :=
    match WireRequest.ofRequest request with
    | .error error => (.error error, state)
    | .ok request => transport.follow redirectLimit request state

def Transport.unreachable : Transport State where
  carry _ state := (none, state)

end CertificateAudit.Http
