import CertificateAudit.Text.Hex
import CertificateAudit.Text.Utf8

/-!
Percent escapes: which characters each part of a URL has to escape, and undoing escapes.
-/

namespace CertificateAudit.Url

open CertificateAudit.Text

def isControlOrWide (c : Char) : Bool :=
  c < ' ' || '\x7f' ≤ c

def escapedInFragment (c : Char) : Bool :=
  isControlOrWide c || " \"<>`".toList.contains c

def escapedInPath (c : Char) : Bool :=
  escapedInFragment c || "#?\x7b\x7d".toList.contains c

def escapedInUser (c : Char) : Bool :=
  escapedInPath c || "/:;=@[\\]^|".toList.contains c

def escapedInQuery (special : Bool) (c : Char) : Bool :=
  isControlOrWide c || " \"#<>".toList.contains c || (special && c == '\x27')

def escape (picked : Char → Bool) (text : List Char) : List Char :=
  text.flatMap fun c =>
    if picked c then (Utf8.encode [c]).flatMap fun b => '%' :: Hex.upper [b] else [c]

/-- The bytes of a text with its escapes undone; a percent sign without two digits stands for
itself. -/
def unescape : List Char → List UInt8
  | [] => []
  | '%' :: high :: low :: rest =>
      match Hex.digit? high, Hex.digit? low with
      | some h, some l => UInt8.ofNat (h * 16 + l) :: unescape rest
      | _, _ => Utf8.encode ['%'] ++ unescape (high :: low :: rest)
  | c :: rest => Utf8.encode [c] ++ unescape rest

end CertificateAudit.Url
