import CertificateAudit.CommandLine.Basic

/-!
Reading command lines. An item is taken in only once the next one is recognised: an item that
is none of the program's own is reported before a fault in the value that stands before it.
`CommandLine.read` stops at the first thing that calls for it.
-/

namespace CertificateAudit.CommandLine

open CertificateAudit.Calendar CertificateAudit.Text

inductive Stop where
  | fault (fault : Fault)
  | topic (topic : Topic)
deriving DecidableEq

inductive Waiting where
  | domain (item : RawText)
  | date (item : RawText)
  /-- A parameter and its value, if that was read already. -/
  | parameter (parameter : Parameter) (value : Option RawText)
deriving DecidableEq

structure Progress where
  domain : Option String := none
  date : Option Date := none
  outputDirectory : Option RawText := none
  settingsFile : Option RawText := none
  flags : List Flag := []
  waiting : Option Waiting := none
  plainItems : Nat := 0
  /-- Only items without dashes follow. -/
  plainOnly : Bool := false
deriving DecidableEq

namespace Progress

def stopWith {α : Type} (fault : Fault) : Except Stop α :=
  .error (.fault fault)

def value? (progress : Progress) : Parameter → Option RawText
  | .outputDirectory => progress.outputDirectory
  | .settingsFile => progress.settingsFile

/-- Take in a parameter with its value, which may be neither repeated nor empty. -/
def takeParameter (parameter : Parameter) (value : RawText) (progress : Progress) :
    Except Stop Progress :=
  if (progress.value? parameter).isSome then stopWith (.repeated (.parameter parameter))
  else if value.isEmpty then stopWith (.noValue parameter)
  else
    match parameter with
    | .outputDirectory => .ok { progress with outputDirectory := some value }
    | .settingsFile => .ok { progress with settingsFile := some value }

def settle (progress : Progress) : Except Stop Progress :=
  let settled := { progress with waiting := none }
  match progress.waiting with
  | none => .ok settled
  | some (.domain item) =>
      match item.text? with
      | none => stopWith .notText
      | some text => .ok { settled with domain := some text }
  | some (.date item) =>
      match item.text? with
      | none => stopWith .notText
      | some text =>
          match readAuditDate text with
          | .ok date => .ok { settled with date := some date }
          | .error error => stopWith (.badDate text error)
  | some (.parameter parameter none) => stopWith (.noValue parameter)
  | some (.parameter parameter (some value)) => settled.takeParameter parameter value

def await (item : Waiting) (progress : Progress) : Except Stop Progress := do
  pure { ← progress.settle with waiting := some item }

def takeSwitch (switch : Switch) (progress : Progress) : Except Stop Progress :=
  match switch with
  | .parameter parameter => progress.await (.parameter parameter none)
  | .topic topic => do
      let _ ← progress.settle
      throw (.topic topic)
  | .flag flag => do
      let progress ← progress.settle
      if progress.flags.contains flag then stopWith (.repeated (.flag flag))
      else pure { progress with flags := progress.flags ++ [flag] }

def takeAttached (parameter : Parameter) (value : RawText) (progress : Progress) :
    Except Stop Progress := do
  (← progress.settle).takeParameter parameter value

/-- Read an item without dashes: the domain comes first, then the date. -/
def readPlain (item : RawText) (progress : Progress) : Except Stop Progress := do
  match progress.plainItems with
  | 0 => pure { ← progress.await (.domain item) with plainItems := 1 }
  | 1 => pure { ← progress.await (.date item) with plainItems := 2 }
  | _ => stopWith (.unexpected item.shown)

/-- Read what follows two dashes. A value can be attached behind an equals sign. -/
def readLong (bytes : List UInt8) (progress : Progress) : Except Stop Progress :=
  let name : RawText := ⟨bytes.takeWhile (· != 0x3d)⟩
  match name.text?.bind Switch.ofLong?, bytes.dropWhile (· != 0x3d) with
  | none, _ => stopWith (.unexpected ("--" ++ name.shown))
  | some switch, [] => progress.takeSwitch switch
  | some (.parameter parameter), _ :: value => progress.takeAttached parameter ⟨value⟩
  | some switch, _ :: value => stopWith (.unwantedValue switch (RawText.mk value).shown)

/-- Read letters with bytes behind them that do not go on with a letter. What follows the letter
of a parameter is its value, less an equals sign between the two. -/
def readLetters : List Char → List UInt8 → Progress → Except Stop Progress
  | [], [], progress => .ok progress
  | [], b :: behind, _ => stopWith (.unexpected ("-" ++ (RawText.mk (b :: behind)).shown))
  | letter :: rest, behind, progress =>
      match Switch.ofLetter? letter, Utf8.encode rest ++ behind with
      | none, _ => stopWith (.unexpected (String.ofList ['-', letter]))
      | some (.parameter parameter), 0x3d :: value => progress.takeAttached parameter ⟨value⟩
      | some (.parameter parameter), first :: value =>
          progress.takeAttached parameter ⟨first :: value⟩
      | some switch, _ => do readLetters rest behind (← progress.takeSwitch switch)

def readShort (bytes : List UInt8) (progress : Progress) : Except Stop Progress :=
  let letters := Utf8.textFront bytes
  progress.readLetters letters (bytes.drop (Utf8.encode letters).length)

def read (progress : Progress) (item : RawText) : Except Stop Progress :=
  if progress.plainOnly then progress.readPlain item
  else
    match item.bytes, progress.waiting with
    | [0x2d, 0x2d], _ => .ok { progress with plainOnly := true }
    | 0x2d :: 0x2d :: bytes, _ => progress.readLong bytes
    | 0x2d :: b :: bytes, _ => progress.readShort (b :: bytes)
    | _, some (.parameter parameter none) =>
        .ok { progress with waiting := some (.parameter parameter (some item)) }
    | _, _ => progress.readPlain item

def finish (progress : Progress) : Except Stop Arguments := do
  let progress ← progress.settle
  match progress.domain, progress.date with
  | some domain, some date => pure {
      domain
      date
      outputDirectory := progress.outputDirectory
      settingsFile := progress.settingsFile
      flags := progress.flags }
  | _, _ => stopWith .incomplete

end Progress

def read (items : List RawText) : Except Stop Arguments := do
  (← items.foldlM Progress.read {}).finish

end CertificateAudit.CommandLine
