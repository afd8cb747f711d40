import CertificateAudit.Audit.Run

/-!
A world as a value in which audits run: a network with its state, a file tree, and a record of
the exchanges and events so far. `World.environment` makes the environment of an audit of it.
-/

namespace CertificateAudit.Audit

open CertificateAudit.Http CertificateAudit.Store

structure Exchange where
  request : Request
  reply : Reply

/-- Everything that an audit can see or change. -/
structure World (State : Type) where
  network : State
  files : FileTree
  exchanges : List Exchange := []
  events : List Event := []

namespace World

variable {State : Type}

def send (network : Network State) (request : Request) : StateM (World State) Reply :=
  fun world =>
    let (reply, state) := network.answer request world.network
    (reply, { world with
      network := state
      exchanges := world.exchanges ++ [⟨request, reply⟩] })

def onFiles {α : Type} (operation : StateM FileTree α) : StateM (World State) α :=
  fun world =>
    let (result, files) := operation world.files
    (result, { world with files })

def disk : Disk (StateM (World State)) where
  createDirectories path := onFiles (FileTree.disk.createDirectories path)
  writeFile path content := onFiles (FileTree.disk.writeFile path content)

def notify (event : Event) : StateM (World State) Unit :=
  fun world => ((), { world with events := world.events ++ [event] })

def environment (network : Network State) : Environment (StateM (World State)) where
  send := send network
  disk := disk
  notify := notify

end World

end CertificateAudit.Audit
