import CertificateAudit.Certificate.Basic
import CertificateAudit.Chunks
import CertificateAudit.Pem.Block

/-!
Certificates as PEM text: writing the bytes of a certificate, and reading a certificate that
somebody else wrote.
-/

namespace CertificateAudit.Pem

open CertificateAudit.Text

def certificateLabel : List Char := "CERTIFICATE".toList

/-- A certificate in PEM: the digits stand in lines of 64 between the two label lines. -/
def certificateText (der : List UInt8) : List Char :=
  let body := (chunksOfSucc 63 (Base64.encode der)).flatMap fun line => line ++ ['\n']
  beginMarker ++ certificateLabel ++ dashes ++ '\n' :: body ++ endMarker ++ certificateLabel ++
    dashes ++ ['\n']

def writeCertificate (der : List UInt8) : String :=
  String.ofList (certificateText der)

inductive CertificateTextError where
  | badBlock (error : BlockError)
  | otherLabel (label : List Char)
  | badCertificate
deriving DecidableEq

def CertificateTextError.message : CertificateTextError → String
  | .badBlock error => "Invalid PEM: " ++ error.message
  | .otherLabel label => "Unexpected PEM label: " ++ String.ofList label
  | .badCertificate => "Failed to parse certificate: Error(malformed certificate)"

/-- Read the first block of a text as a certificate: its bytes and the text of its subject. -/
def readCertificate (text : String) :
    Except CertificateTextError (List UInt8 × String) :=
  match Block.read (trim text.toList) with
  | .error error => .error (.badBlock error)
  | .ok block =>
      if block.label ≠ certificateLabel then .error (.otherLabel block.label)
      else
        match Certificate.ofDer? block.contents with
        | none => .error .badCertificate
        | some certificate => .ok (block.contents, certificate.subject.text)

end CertificateAudit.Pem
