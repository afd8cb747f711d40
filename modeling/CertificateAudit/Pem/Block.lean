import CertificateAudit.Pem.Base64
import CertificateAudit.Text.Blank

/-!
PEM blocks: a label and bytes between two marker lines. `Block.read` takes the first block of a
text.
-/

namespace CertificateAudit.Pem

open CertificateAudit.Text

structure Block where
  label : List Char
  contents : List UInt8
deriving DecidableEq

inductive BlockError where
  | badFraming
  | noBeginLabel
  | noEndLabel
  | labelMismatch (first last : List Char)
  | badData
  | badHeader (line : List Char)
deriving DecidableEq

def BlockError.message : BlockError → String
  | .badFraming => "malformedframing"
  | .noBeginLabel => "missing BEGIN tag"
  | .noEndLabel => "missing END tag"
  | .labelMismatch first last =>
      "mismatching BEGIN (\"" ++ String.ofList first ++ "\") and END (\"" ++
        String.ofList last ++ "\") tags"
  | .badData => "invalid data: not in base64"
  | .badHeader line => "invalid header: " ++ String.ofList line

/-- Look for a marker, of which `expected` is still to come. A character that does not fit
starts the search anew behind itself, so a marker that overlaps a false start is missed. Gives
what stands in front of the marker and what comes behind it. -/
def findFrom (marker expected seen : List Char) : List Char → Option (List Char × List Char)
  | [] => none
  | c :: rest =>
      match expected with
      | [] => none
      | e :: expected =>
          if c = e then
            if expected.isEmpty then
              some ((seen.drop (marker.length - 1)).reverse, rest)
            else findFrom marker expected (c :: seen) rest
          else findFrom marker marker (c :: seen) rest

def cutAt? (marker text : List Char) : Option (List Char × List Char) :=
  findFrom marker marker [] text

def beginMarker : List Char := "-----BEGIN ".toList

def endMarker : List Char := "-----END ".toList

def dashes : List Char := "-----".toList

def isGap (c : Char) : Bool :=
  c == ' ' || c == '\t' || c == '\r' || c == '\n'

/-- Headers and data of a payload: headers end at the first empty line. -/
def splitHeaders (payload : List Char) : List Char × List Char :=
  match cutAt? "\n\n".toList payload with
  | some split => split
  | none =>
      match cutAt? "\r\n\r\n".toList payload with
      | some split => split
      | none => ([], payload)

def frame? (text : List Char) : Option (List Char × List Char × List Char) := do
  let (_, rest) ← cutAt? beginMarker text
  let (first, rest) ← cutAt? dashes rest
  let (payload, rest) ← cutAt? endMarker (rest.dropWhile isGap)
  let (last, _) ← cutAt? dashes rest
  pure (first, payload, last)

/-- Read the first block of a text. Blanks inside the data do not matter; a header line is
anything with a colon. -/
def Block.read (text : List Char) : Except BlockError Block :=
  match frame? text with
  | none => .error .badFraming
  | some (first, payload, last) =>
      if first.isEmpty then .error .noBeginLabel
      else if last.isEmpty then .error .noEndLabel
      else if first ≠ last then .error (.labelMismatch first last)
      else
        let (headers, data) := splitHeaders payload
        match Base64.decode? (data.filter fun c => !isBlank c) with
        | none => .error .badData
        | some contents =>
            match (lines headers).find? fun line => !line.contains ':' with
            | some line => .error (.badHeader line)
            | none => .ok ⟨first, contents⟩

end CertificateAudit.Pem
