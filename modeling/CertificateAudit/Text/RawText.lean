import CertificateAudit.Text.Utf8

/-!
Text as the operating system hands it over: bytes that spell a text or do not. Paths and the items
of a command line are of this kind.
-/

namespace CertificateAudit.Text

structure RawText where
  bytes : List UInt8
deriving DecidableEq

namespace RawText

def ofText (text : String) : RawText :=
  ⟨Utf8.encode text.toList⟩

instance : Coe String RawText := ⟨ofText⟩

instance : Append RawText := ⟨fun front back => ⟨front.bytes ++ back.bytes⟩⟩

def isEmpty (raw : RawText) : Bool :=
  raw.bytes.isEmpty

def text? (raw : RawText) : Option String :=
  Utf8.text? raw.bytes

/-- The text with U+FFFD for each ill-formed stretch. -/
def shown (raw : RawText) : String :=
  String.ofList (Utf8.decodeLossy raw.bytes)

end RawText

end CertificateAudit.Text
