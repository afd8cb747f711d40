import CertificateAudit.Audit.Run
import CertificateAudit.CommandLine.Reader
import CertificateAudit.Settings.File

/-!
The whole program: it reads the command line and the settings, audits, and tells its steps line
by line or the report as JSON. Its exit code is 0 after an audit that was saved and told, 1 after
any other failure than one of the command line, and 2 after that.
-/

namespace CertificateAudit.Program

open CertificateAudit.Audit CertificateAudit.CommandLine CertificateAudit.Http
open CertificateAudit.Store CertificateAudit.Text

inductive AuditError where
  | settings (error : SettingsError)
  | store (error : SaveError)
  /-- A path of the report is not text. -/
  | report
deriving DecidableEq

namespace AuditError

def settingsText (message : String) : String :=
  "Configuration error: " ++ message

def storeText (message : String) : String :=
  "Result store error: " ++ message

/-- What is said about an error; where it has a cause of its own, this is told behind it. -/
def message : AuditError → String
  | .settings error => settingsText error.message ++ ": " ++ error.message
  | .store error => storeText error.message ++ ": " ++ error.message
  | .report => "path contains invalid UTF-8 characters"

def line (error : AuditError) : String :=
  "Error: " ++ error.message

end AuditError

/-- What the last line or lines say of a report, if it can be told. -/
def closing? (arguments : Arguments) (report : Report) : Option String :=
  if arguments.has .json then report.pretty? else some report.summary

structure Surroundings (m : Type → Type) where
  send : Request → m Reply
  disk : Disk m
  look : RawText → m FileLookup
  print : String → m Unit
  complain : String → m Unit

namespace Surroundings

variable {m : Type → Type} [Monad m] (surroundings : Surroundings m)

def printLine (line : String) : m Unit :=
  surroundings.print (line ++ "\n")

def complainLine (line : String) : m Unit :=
  surroundings.complain (line ++ "\n")

/-- Tell a step of an audit, unless the report is to stand alone. -/
def tell (arguments : Arguments) (event : Event) : m Unit :=
  if arguments.has .json then pure ()
  else
    match event.line? arguments.date with
    | some line => surroundings.printLine line
    | none => pure ()

def environment (arguments : Arguments) : Environment m where
  send := surroundings.send
  disk := surroundings.disk
  notify := surroundings.tell arguments

def settings (arguments : Arguments) : m (Except SettingsError Settings) := do
  let found ← surroundings.look (Settings.fileFor arguments.settingsFile)
  pure ((Settings.ofLookup arguments.settingsFile found).map arguments.override)

def conclude (arguments : Arguments) (report : Report) : m (Except AuditError Unit) := do
  match closing? arguments report with
  | none => pure (.error .report)
  | some text => do
      surroundings.printLine text
      pure (.ok ())

def audit (arguments : Arguments) : m (Except AuditError Unit) := do
  match ← surroundings.settings arguments with
  | .error error => pure (.error (.settings error))
  | .ok settings =>
      let (result, _) ← Audit.run (surroundings.environment arguments) settings
        arguments.domain arguments.date { enabled := settings.cacheIssuers }
      match result with
      | .error error => pure (.error (.store error))
      | .ok report => surroundings.conclude arguments report

def run (items : List RawText) : m Nat := do
  match CommandLine.read items with
  | .error (.fault fault) => do
      surroundings.complainLine fault.message
      pure 2
  | .error (.topic topic) => do
      surroundings.print topic.text
      pure 0
  | .ok arguments => do
      match ← surroundings.audit arguments with
      | .error error => do
          surroundings.complainLine error.line
          pure 1
      | .ok () => pure 0

end Surroundings

end CertificateAudit.Program
