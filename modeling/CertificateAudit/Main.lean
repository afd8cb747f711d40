import CertificateAudit.Http.Client
import CertificateAudit.Program.Basic

/-!
The program on a real disk. It reaches no network: every request that can be put together fails
like one whose connection cannot be made. Items and paths are given and taken as text here.
-/

namespace CertificateAudit.Program

open CertificateAudit.Http CertificateAudit.Store CertificateAudit.Text

def fileFailureOf : IO.Error → FileFailure
  | .noFileOrDirectory .. => .noSuchFile
  | .alreadyExists .. => .fileExists
  | .inappropriateType .. => .notDirectory
  | error => .system (toString error)

def attempt (operation : IO Unit) : IO (Except FileFailure Unit) := do
  try
    operation
    pure (.ok ())
  catch error => pure (.error (fileFailureOf error))

def lookOnDisk (path : RawText) : IO FileLookup := do
  try pure (.content (← IO.FS.readBinFile path.shown).toList)
  catch
    | .noFileOrDirectory .. => pure .nothing
    | _ => pure .unreadable

/-- The network of this machine, on which nobody is reached. -/
def nowhere : Network Unit := Transport.unreachable.network

def shell : Surroundings IO where
  send request := pure (nowhere.answer request ()).1
  disk := {
    createDirectories := fun path => attempt (IO.FS.createDirAll path.shown)
    writeFile := fun path content =>
      attempt (IO.FS.writeBinFile path.shown ⟨content.toArray⟩) }
  look := lookOnDisk
  print text := IO.print text
  complain text := IO.eprint text

end CertificateAudit.Program

def main (items : List String) : IO UInt32 := do
  let items := items.map CertificateAudit.Text.RawText.ofText
  pure (← CertificateAudit.Program.shell.run items).toUInt32
