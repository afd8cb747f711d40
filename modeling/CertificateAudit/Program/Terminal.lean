import CertificateAudit.Audit.World
import CertificateAudit.Program.Basic

/-!
A world with a terminal, in which the program runs as a pure function.
-/

namespace CertificateAudit.Program

open CertificateAudit.Audit CertificateAudit.Http CertificateAudit.Store CertificateAudit.Text

/-- A world and what was written in it so far. -/
structure Terminal (State : Type) where
  world : World State
  output : String := ""
  errors : String := ""

namespace Terminal

variable {State : Type}

def onWorld {α : Type} (operation : StateM (World State) α) : StateM (Terminal State) α :=
  fun terminal =>
    let (result, world) := operation terminal.world
    (result, { terminal with world })

def lookupOf : Option Node → FileLookup
  | none => .nothing
  | some .directory => .unreadable
  | some (.file content) => .content content

def look (path : RawText) : StateM (Terminal State) FileLookup :=
  fun terminal => (lookupOf (terminal.world.files.nodeAt? path), terminal)

def surroundings (network : Network State) : Surroundings (StateM (Terminal State)) where
  send request := onWorld (World.send network request)
  disk := {
    createDirectories := fun path => onWorld (World.disk.createDirectories path)
    writeFile := fun path content => onWorld (World.disk.writeFile path content) }
  look := look
  print text := fun terminal => ((), { terminal with output := terminal.output ++ text })
  complain text := fun terminal => ((), { terminal with errors := terminal.errors ++ text })

def run (network : Network State) (items : List RawText) (terminal : Terminal State) :
    Nat × Terminal State :=
  (surroundings network).run items terminal

end Terminal

end CertificateAudit.Program
