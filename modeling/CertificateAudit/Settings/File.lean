import CertificateAudit.Settings
import CertificateAudit.Text.Utf8

/-!
Settings files: one that is named has to be there; the usual one may be missing.
-/

namespace CertificateAudit

open CertificateAudit.Text

inductive FileLookup where
  | nothing
  /-- Something that cannot be read, such as a directory. -/
  | unreadable
  | content (bytes : List UInt8)
deriving DecidableEq

namespace Settings

def usualFile : RawText := "config/default.toml"

def fileFor (named : Option RawText) : RawText :=
  named.getD usualFile

def ofFile (path : RawText) : FileLookup → Except SettingsError Settings
  | .nothing | .unreadable => .error (.notFound path.shown)
  | .content bytes =>
      match Utf8.text? bytes with
      | some text => ofToml text
      | none => .error (.notFound path.shown)

/-- The settings in the file that counts, or the defaults where none is named and there is none. -/
def ofLookup (named : Option RawText) (found : FileLookup) : Except SettingsError Settings :=
  match named, found with
  | none, .nothing => .ok {}
  | _, _ => ofFile (fileFor named) found

end Settings

end CertificateAudit
