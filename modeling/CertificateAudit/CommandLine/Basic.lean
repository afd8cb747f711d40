import CertificateAudit.Calendar.Pattern
import CertificateAudit.Settings

/-!
What can stand on a command line, what a command line asks for, and what can be wrong with one.
`CommandLine.read` in `CommandLine.Reader` reads command lines.
-/

namespace CertificateAudit.CommandLine

open CertificateAudit.Calendar CertificateAudit.Text

inductive Flag where
  | json | noIssuerCache | verbose | noColor
deriving DecidableEq

/-- A switch that takes a value. -/
inductive Parameter where
  | outputDirectory | settingsFile
deriving DecidableEq

inductive Topic where
  | help | version
deriving DecidableEq

inductive Switch where
  | flag (flag : Flag)
  | parameter (parameter : Parameter)
  | topic (topic : Topic)
deriving DecidableEq

def Flag.name : Flag → String
  | .json => "--json"
  | .noIssuerCache => "--no-issuer-cache"
  | .verbose => "--verbose"
  | .noColor => "--no-color"

def Parameter.name : Parameter → String
  | .outputDirectory => "--output-dir <DIR>"
  | .settingsFile => "--config <FILE>"

def Topic.name : Topic → String
  | .help => "--help"
  | .version => "--version"

namespace Switch

def name : Switch → String
  | .flag mark => mark.name
  | .parameter named => named.name
  | .topic subject => subject.name

/-- The switch with a long name, given without its dashes. Names are not abbreviated. -/
def ofLong? (name : String) : Option Switch :=
  match name with
  | "output-dir" => some (.parameter .outputDirectory)
  | "config" => some (.parameter .settingsFile)
  | "json" => some (.flag .json)
  | "no-issuer-cache" => some (.flag .noIssuerCache)
  | "verbose" => some (.flag .verbose)
  | "no-color" => some (.flag .noColor)
  | "help" => some (.topic .help)
  | "version" => some (.topic .version)
  | _ => none

def ofLetter? (letter : Char) : Option Switch :=
  match letter with
  | 'o' => some (.parameter .outputDirectory)
  | 'c' => some (.parameter .settingsFile)
  | 'v' => some (.flag .verbose)
  | 'h' => some (.topic .help)
  | 'V' => some (.topic .version)
  | _ => none

end Switch

inductive Fault where
  /-- Domain or date is missing. -/
  | incomplete
  | unexpected (text : String)
  /-- Domain or date is not text. -/
  | notText
  | badDate (text : String) (error : PatternError)
  | repeated (switch : Switch)
  | noValue (parameter : Parameter)
  | unwantedValue (switch : Switch) (value : String)
deriving DecidableEq

def Fault.message : Fault → String
  | .incomplete => "error: the following required arguments were not provided:"
  | .unexpected text => "error: unexpected argument '" ++ text ++ "' found"
  | .notText => "error: invalid UTF-8 was detected in one or more arguments"
  | .badDate text error =>
      "error: invalid value '" ++ text ++ "' for '<DATE>': " ++ auditDateMessage error
  | .repeated switch =>
      "error: the argument '" ++ switch.name ++ "' cannot be used multiple times"
  | .noValue parameter =>
      "error: a value is required for '" ++ parameter.name ++ "' but none was supplied"
  | .unwantedValue switch value =>
      "error: unexpected value '" ++ value ++ "' for '" ++ switch.name ++
        "' found; no more were expected"

def Topic.text : Topic → String
  | .version => "ct-audit 0.1.0\n"
  | .help =>
      "Find the certificates that were valid and unrevoked for a domain on a given date\n" ++
      "\n" ++
      "Usage: ct-audit [OPTIONS] <DOMAIN> <DATE>\n" ++
      "\n" ++
      "Arguments:\n" ++
      "  <DOMAIN>  Domain to audit (used verbatim in the CT log query)\n" ++
      "  <DATE>    Audit date\n" ++
      "\n" ++
      "Options:\n" ++
      "  -o, --output-dir <DIR>  Directory in which the \x7bdomain\x7d_\x7bdate\x7d " ++
        "results folder is created\n" ++
      "  -c, --config <FILE>     Settings file " ++
        "(defaults to config/default.toml when present)\n" ++
      "      --json              Print the audit report as JSON instead of progress lines\n" ++
      "      --no-issuer-cache   Fetch the issuer for every certificate even when shared\n" ++
      "  -v, --verbose           Verbose output\n" ++
      "      --no-color          Disable colored output\n" ++
      "  -h, --help              Print help\n" ++
      "  -V, --version           Print version\n" ++
      "\n" ++
      "Example: ct-audit tee.teleport.best 2024-08-30\n"

structure Arguments where
  domain : String
  date : Date
  outputDirectory : Option RawText
  settingsFile : Option RawText
  flags : List Flag
deriving DecidableEq

namespace Arguments

def has (arguments : Arguments) (flag : Flag) : Bool :=
  arguments.flags.contains flag

def logLevel (arguments : Arguments) : String :=
  if arguments.has .verbose then "debug" else "warn"

/-- Put what the command line says in place of what the settings say. -/
def override (arguments : Arguments) (settings : Settings) : Settings :=
  { settings with
    directory := arguments.outputDirectory.getD settings.directory
    cacheIssuers := settings.cacheIssuers && !arguments.has .noIssuerCache }

end Arguments

end CertificateAudit.CommandLine
