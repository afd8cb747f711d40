import CertificateAudit.Http.Status

/-!
Requests and what comes of them. A `Network` is anything that answers requests, one after the
other, and may change with every answer; `Network.IsSteady` says that it does not.
-/

namespace CertificateAudit.Http

inductive Method where
  | get | post
deriving DecidableEq

def Method.name : Method → String
  | .get => "GET"
  | .post => "POST"

structure Request where
  method : Method
  url : String
  userAgent : Option String
  accept : String
  contentType : Option String
  body : List UInt8
deriving DecidableEq

/-- Why there is no response. URLs are given in their normal form. -/
inductive SendError where
  | malformed
  | notWeb (url : String)
  | unreachable (url : String)
  | redirects (url : String)
deriving DecidableEq

def SendError.message : SendError → String
  | .malformed => "builder error"
  | .notWeb url => "builder error for url (" ++ url ++ ")"
  | .unreachable url => "error sending request for url (" ++ url ++ ")"
  | .redirects url => "error following redirect for url (" ++ url ++ ")"

/-- A response. The body is absent if the connection broke before its end. -/
structure Response where
  status : Nat
  body : Option (List UInt8)
deriving DecidableEq

abbrev Reply := Except SendError Response

inductive RequestFailure where
  | unsent (error : SendError)
  | status (code : Nat)
  | brokenBody
deriving DecidableEq

def RequestFailure.message : RequestFailure → String
  | .unsent error => error.message
  | .status code => "HTTP " ++ statusText code
  | .brokenBody => "error decoding response body"

def bodyOf : Reply → Except RequestFailure (List UInt8)
  | .error error => .error (.unsent error)
  | .ok response =>
      if isSuccess response.status then
        match response.body with
        | some body => .ok body
        | none => .error .brokenBody
      else .error (.status response.status)

structure Network (State : Type) where
  answer : Request → State → Reply × State

/-- Every request has an answer that depends on nothing else. -/
def Network.IsSteady {State : Type} (network : Network State) (answers : Request → Reply) :
    Prop :=
  ∀ request state, (network.answer request state).1 = answers request

end CertificateAudit.Http
