import CertificateAudit.Text.Blank
import CertificateAudit.Text.RawText
import CertificateAudit.Toml.Reader

/-!
Settings of an audit and how a TOML document gives them: keys that are left out keep their
defaults, and unknown keys do not matter.
-/

namespace CertificateAudit

open CertificateAudit.Text

structure Settings where
  baseUrl : String := "https://crt.sh"
  userAgent : String := "ct-audit/0.1.0"
  timeoutSeconds : Option Nat := none
  cacheIssuers : Bool := true
  directory : RawText := "."
deriving DecidableEq

/-- A setting whose value can be of the right type and still not allowed. -/
inductive SettingsRule where
  | baseUrlNotBlank
  | timeoutPositive
deriving DecidableEq

def SettingsRule.key : SettingsRule → String
  | .baseUrlNotBlank => "ct.base_url"
  | .timeoutPositive => "http.timeout_secs"

def SettingsRule.requirement : SettingsRule → String
  | .baseUrlNotBlank => "must not be empty"
  | .timeoutPositive => "must be greater than zero"

inductive SettingsError where
  | notFound (path : String)
  | unreadable
  | violates (rule : SettingsRule)
deriving DecidableEq

namespace SettingsError

def notFoundText (path : String) : String :=
  "Configuration file not found: " ++ path

def unreadableText (detail : String) : String :=
  "Failed to parse configuration: " ++ detail

def invalidText (key requirement : String) : String :=
  "Invalid configuration value for " ++ key ++ ": " ++ requirement

def message : SettingsError → String
  | .notFound path => notFoundText path
  | .unreadable => unreadableText "the document does not give settings"
  | .violates rule => invalidText rule.key rule.requirement

end SettingsError

namespace Toml

open CertificateAudit.Text

/-- What a value has to say about a field of a group: the value is no group, the field is left
out, or its value. A list gives its fields by position; a time is a group without fields. -/
inductive FieldValue where
  | noGroup
  | missing
  | found (value : Value)

def Value.field (position : Nat) (key : String) : Value → FieldValue
  | .table _ entries =>
      match Table.lookup? key entries with
      | some value => .found value
      | none => .missing
  | .array items =>
      match items[position]? with
      | some value => .found value
      | none => .missing
  | .tables items =>
      match items[position]? with
      | some entries => .found (.table .header entries)
      | none => .missing
  | .time => .missing
  | _ => .noGroup

def Value.isList : Value → Bool
  | .array _ | .tables _ => true
  | _ => false

def Value.text? : Value → Option String
  | .text content => some content
  | _ => none

def Value.path? (value : Value) : Option RawText :=
  value.text?.map RawText.ofText

def Value.boolean? : Value → Option Bool
  | .boolean value => some value
  | _ => none

def Value.natural? : Value → Option Nat
  | .integer n => if 0 ≤ n then some n.toNat else none
  | _ => none

/-- A field read as one type, or its default where it is left out. -/
def Value.fieldOr {α : Type} (read : Value → Option α) (default : α) (position : Nat)
    (key : String) (group : Value) : Option α :=
  match group.field position key with
  | .noGroup => none
  | .missing => some default
  | .found value => read value

/-- A field that may be left out of a table but not of a list. -/
def Value.optionalField {α : Type} (read : Value → Option α) (position : Nat) (key : String)
    (group : Value) : Option (Option α) :=
  match group.field position key with
  | .noGroup => none
  | .missing => if group.isList then none else some none
  | .found value => (read value).map some

/-- A group of the document; one that is left out has no fields. -/
def Table.group (key : String) (document : Table) : Value :=
  (document.lookup? key).getD (.table .header [])

end Toml

namespace Settings

def ofDocument? (document : Toml.Table) : Option Settings := do
  let log := document.group "ct"
  let defaults : Settings := {}
  let baseUrl ← log.fieldOr Toml.Value.text? defaults.baseUrl 0 "base_url"
  let userAgent ← log.fieldOr Toml.Value.text? defaults.userAgent 1 "user_agent"
  let timeoutSeconds ←
    (document.group "http").optionalField Toml.Value.natural? 0 "timeout_secs"
  let cacheIssuers ←
    (document.group "issuer").fieldOr Toml.Value.boolean? defaults.cacheIssuers 0 "cache"
  let directory ←
    (document.group "output").fieldOr Toml.Value.path? defaults.directory 0 "directory"
  pure { baseUrl, userAgent, timeoutSeconds, cacheIssuers, directory }

def violated? (settings : Settings) : Option SettingsRule :=
  if isAllBlank settings.baseUrl then some .baseUrlNotBlank
  else if settings.timeoutSeconds = some 0 then some .timeoutPositive
  else none

def ofToml (text : String) : Except SettingsError Settings :=
  match (Toml.read? text).bind ofDocument? with
  | none => .error .unreadable
  | some settings =>
      match settings.violated? with
      | some rule => .error (.violates rule)
      | none => .ok settings

end Settings

end CertificateAudit
