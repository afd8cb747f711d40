import CertificateAudit.Http.Client

/-!
Scripted connections: for each method and URL a list of answers, which are given in order, the
last one again and again. The script keeps a record of what was asked.
-/

namespace CertificateAudit.Http

open CertificateAudit.Text

structure ScriptedAnswer where
  status : Nat := 200
  location : Option String := none
  body : List UInt8 := []
  closes : Bool := false
  breaksOff : Bool := false
deriving DecidableEq

structure AskedFor where
  method : String
  url : String
  userAgent : Option String
  accept : Option String
  contentType : Option String
  body : List UInt8
deriving DecidableEq

/-- The answers that are left, under method and URL, and what was asked for so far. -/
structure Script where
  answers : List (String × List ScriptedAnswer)
  record : List AskedFor := []

namespace Script

def next (key : String) : List (String × List ScriptedAnswer) →
    ScriptedAnswer × List (String × List ScriptedAnswer)
  | [] => ({ status := 404 }, [])
  | (other, answers) :: rest =>
      if other = key then
        match answers with
        | [] => ({ status := 404 }, (other, answers) :: rest)
        | [last] => (last, (other, [last]) :: rest)
        | answer :: later => (answer, (other, later) :: rest)
      else
        let (answer, rest) := next key rest
        (answer, (other, answers) :: rest)

/-- The host and port behind which an encrypted connection ends. -/
def tunnelTarget (url : Url) : String :=
  match url.authority with
  | none => ""
  | some authority =>
      String.ofList (authority.host ++ ':' :: Nat.toDigits 10 (authority.port.getD 443))

/-- Carry out an exchange by the script. Encrypted connections are recorded and fail. -/
def carry (request : WireRequest) (script : Script) : Option WireResponse × Script :=
  if request.url.scheme = "https".toList then
    let asked := ⟨"CONNECT", tunnelTarget request.url, none, none, none, []⟩
    (none, { script with record := script.record ++ [asked] })
  else
    let url := request.url.requestText
    let asked := {
      method := request.method.name
      url
      userAgent := request.userAgent.map fun agent => String.ofList (trim agent.toList)
      accept := some request.accept
      contentType := request.contentType
      body := request.body }
    let (answer, answers) := next (request.method.name ++ " " ++ url) script.answers
    let script := { answers, record := script.record ++ [asked] }
    if answer.closes then (none, script)
    else
      let body := if answer.breaksOff then none else some answer.body
      (some ⟨answer.status, answer.location, body⟩, script)

def transport : Transport Script where
  carry := carry

end Script

end CertificateAudit.Http
