import CertificateAudit.Text.Blank
import CertificateAudit.Text.RawText

/-!
Paths as written, and the names they consist of. A path that starts with a slash starts at the
root; any other starts at the working directory.
-/

namespace CertificateAudit.Store.Path

open CertificateAudit.Text

def slash : UInt8 := 0x2f

def up : RawText := ".."

def isAbsolute (path : RawText) : Bool :=
  path.bytes.head? == some slash

/-- Append a path. An absolute one replaces what it is appended to. -/
def join (base path : RawText) : RawText :=
  if isAbsolute path || base.isEmpty then path
  else if base.bytes.getLast? = some slash then base ++ path
  else base ++ "/" ++ path

def names (path : RawText) : List RawText :=
  ((splitOn slash path.bytes).map RawText.mk).filter fun name => name != "" && name != "."

end CertificateAudit.Store.Path
