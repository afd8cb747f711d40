import CertificateAudit.Certificate.Basic
import CertificateAudit.Digest.Sha1

/-!
The question put to a responder about one certificate. The certificate is identified by the
digests of its issuer's name and key and by its serial number.
-/

namespace CertificateAudit.Ocsp

open CertificateAudit.Der

def sha1Algorithm : List UInt8 :=
  [0x30, 0x09, 0x06, 0x05, 0x2b, 0x0e, 0x03, 0x02, 0x1a, 0x05, 0x00]

def sequence (content : List UInt8) : List UInt8 :=
  encode 0x30 content

/-- The identification of a certificate under its issuer: the name as the certificate has it,
the key as the issuer has it, and the serial number as written. -/
def certId (certificate issuer : Certificate) : List UInt8 :=
  sequence (sha1Algorithm ++ encode 0x04 (Digest.Sha1.digest certificate.issuer.raw) ++
    encode 0x04 (Digest.Sha1.digest issuer.publicKey) ++ encode 0x02 certificate.serial)

def request (certificate issuer : Certificate) : List UInt8 :=
  sequence (sequence (sequence (sequence (certId certificate issuer))))

end CertificateAudit.Ocsp
