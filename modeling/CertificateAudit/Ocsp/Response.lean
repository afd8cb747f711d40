import CertificateAudit.Calendar.Pattern
import CertificateAudit.Der.Element
import CertificateAudit.Ocsp.Status

/-!
Reading a responder's answer: `certStatus` takes the bytes of an answer and the serial number
that was asked for, and gives the status of that certificate or the first fault met. Serial
numbers are compared as unsigned numbers, and an answer about a single certificate is taken
whatever its serial number is. Signatures are not looked at.
-/

namespace CertificateAudit.Ocsp

open CertificateAudit.Calendar CertificateAudit.Der CertificateAudit.Text

inductive Layer where
  | response | responseBytes | basicResponse | responseData
deriving DecidableEq

def Layer.name : Layer → String
  | .response => "OCSPResponse"
  | .responseBytes => "ResponseBytes"
  | .basicResponse => "BasicOCSPResponse"
  | .responseData => "ResponseData"

inductive Fault where
  | undecodable
  | notSequence (layer : Layer)
  | invalidResponderStatus
  | refused (status : ResponderStatus)
  | unrecognisedStatus (code : Nat)
  | noResponseBytes
  | unreadableWrapper
  | missingType
  | unsupportedType (objectId : String)
  | unreadableBasicResponse
  | emptyBasicResponse
  | noResponses
  | noMatchingResponse
  | notContextTagged (cls : TagClass)
  | unexpectedStatusTag (number : Nat)
  | missingTime
  | timeNotText
  | timeTooShort (text : String)
  | invalidTime (text : String) (error : PatternError)
deriving DecidableEq

def Fault.message : Fault → String
  | .undecodable => "Failed to decode DER: Error(malformed element)"
  | .notSequence layer => layer.name ++ " is not a SEQUENCE"
  | .invalidResponderStatus => "Invalid responseStatus"
  | .refused status => "OCSP responder returned: " ++ status.name
  | .unrecognisedStatus code => "Unrecognised responseStatus: " ++ toString code
  | .noResponseBytes => "No responseBytes in successful OCSP response"
  | .unreadableWrapper => "Failed to read responseBytes wrapper"
  | .missingType => "ResponseBytes missing responseType"
  | .unsupportedType objectId => "Unsupported response type: " ++ objectId
  | .unreadableBasicResponse => "Failed to read BasicOCSPResponse bytes"
  | .emptyBasicResponse => "Empty BasicOCSPResponse"
  | .noResponses => "ResponseData has no responses"
  | .noMatchingResponse => "Could not find matching SingleResponse in OCSP response"
  | .notContextTagged cls => "CertStatus is not context-tagged: " ++ cls.name
  | .unexpectedStatusTag number => "Unexpected CertStatus tag: " ++ toString number
  | .missingTime => "RevokedInfo missing revocationTime"
  | .timeNotText => "revocationTime is not ASCII"
  | .timeTooShort text => "revocationTime too short: " ++ text
  | .invalidTime text error => "Invalid revocationTime " ++ text ++ ": " ++ error.message

def basicResponseType : String := "1.3.6.1.5.5.7.48.1.1"

def readElement (bytes : List UInt8) : Except Fault Element :=
  match Element.read bytes with
  | some (element, _) => .ok element
  | none => .error .undecodable

def itemsOf (layer : Layer) (element : Element) : Except Fault (List Element) :=
  match element.items? with
  | some items => .ok items
  | none => .error (.notSequence layer)

structure SingleResponse where
  certId : Element
  status : Element

/-- Read an entry of the list of responses: a sequence of at least two elements. -/
def SingleResponse.ofElement? (element : Element) : Option SingleResponse :=
  match element.items? with
  | some (certId :: status :: _) => some ⟨certId, status⟩
  | _ => none

/-- Whether an entry is about the serial number: the last element of its identification is an
integer with the same unsigned value. -/
def SingleResponse.isFor (serial : List UInt8) (single : SingleResponse) : Bool :=
  match single.certId.items?.bind List.getLast? |>.bind Element.integer? with
  | some bytes => trimZeros bytes == trimZeros serial
  | none => false

/-- The first entry about the serial number, or else the only entry there is. -/
def selectSingle (serial : List UInt8) (responses : List Element) :
    Except Fault SingleResponse :=
  let singles := responses.filterMap SingleResponse.ofElement?
  match singles.find? (SingleResponse.isFor serial), singles with
  | some single, _ => .ok single
  | none, [only] => .ok only
  | none, _ => .error .noMatchingResponse

/-- The characters whose spelling fills exactly so many bytes, if they end there. -/
def frontOfSize? : (size : Nat) → List Char → Option (List Char)
  | 0, _ => some []
  | _ + 1, [] => none
  | size + 1, c :: rest =>
      if c.utf8Size ≤ size + 1 then
        (frontOfSize? (size + 1 - c.utf8Size) rest).map (c :: ·)
      else none

def readTime (bytes : List UInt8) : Except Fault Moment :=
  match Utf8.decode? bytes with
  | none => .error .timeNotText
  | some text =>
      match frontOfSize? 14 text with
      | none => .error (.timeTooShort (String.ofList text))
      | some digits =>
          match Pattern.compact.readMoment digits with
          | .ok moment => .ok moment
          | .error error => .error (.invalidTime (String.ofList text) error)

/-- Read the reason behind the time of a revocation, if one is there in its usual form. -/
def readReason : List UInt8 → Option String
  | 0xa0 :: 0x03 :: 0x0a :: 0x01 :: code :: _ => some (reasonName code)
  | _ => none

/-- Read the content of a revocation: a time of less than 128 bytes, and a reason. -/
def readRevocation : List UInt8 → Except Fault CertStatus
  | 0x18 :: length :: rest =>
      if length.toNat ≤ rest.length ∧ length < 0x80 then do
        let time ← readTime (rest.take length.toNat)
        pure (.revoked time (readReason (rest.drop length.toNat)))
      else .error .missingTime
  | _ => .error .missingTime

def readStatus : Element → Except Fault CertStatus
  | .leaf ⟨.contextSpecific, number⟩ (.raw content) =>
      match number with
      | 0 => .ok .good
      | 1 => readRevocation content
      | 2 => .ok .unknown
      | number => .error (.unexpectedStatusTag number)
  | element => .error (.notContextTagged element.cls)

def responseBytes (response : List UInt8) : Except Fault (List UInt8) := do
  let outer ← itemsOf .response (← readElement response)
  let code ← match outer.head?.bind Element.enumerated? with
    | some code => pure code
    | none => throw .invalidResponderStatus
  match ResponderStatus.ofCode? code with
  | some .successful => pure ()
  | some status => throw (.refused status)
  | none => throw (.unrecognisedStatus code)
  match outer[1]? with
  | none => throw .noResponseBytes
  | some wrapper =>
      match wrapper.bytes? with
      | some bytes => pure bytes
      | none => throw .unreadableWrapper

def basicResponse (bytes : List UInt8) : Except Fault (List UInt8) := do
  let items ← itemsOf .responseBytes (← readElement bytes)
  match items.head?.bind Element.objectIdText? with
  | none => throw .missingType
  | some responseType =>
      if responseType = basicResponseType then
        match items[1]?.bind Element.bytes? with
        | some basic => pure basic
        | none => throw .unreadableBasicResponse
      else throw (.unsupportedType responseType)

/-- The list of responses in a basic answer. All that may stand before it is tagged or a
time, so it is the first sequence. -/
def responses (basic : List UInt8) : Except Fault (List Element) := do
  let items ← itemsOf .basicResponse (← readElement basic)
  match items.head? with
  | none => throw .emptyBasicResponse
  | some element =>
      let fields ← itemsOf .responseData element
      match fields.findSome? Element.items? with
      | some list => pure list
      | none => throw .noResponses

def certStatus (response serial : List UInt8) : Except Fault CertStatus := do
  let list ← responses (← basicResponse (← responseBytes response))
  let single ← selectSingle serial list
  readStatus single.status

end CertificateAudit.Ocsp
