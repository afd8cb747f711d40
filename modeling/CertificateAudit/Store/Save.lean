import CertificateAudit.Calendar.Date
import CertificateAudit.Pem.Certificate
import CertificateAudit.Store.FileTree
import CertificateAudit.Text.Utf8

/-!
Saving the certificates of an audit: a directory named for domain and date, and in it a
numbered file for each certificate. Files of an earlier audit with the same numbers are
overwritten; saving stops at the first file that cannot be written.
-/

namespace CertificateAudit.Store

open CertificateAudit.Calendar CertificateAudit.Text

/-- Why certificates could not be saved. The paths are told as they are shown. -/
inductive SaveError where
  | directory (path : String) (failure : FileFailure)
  | file (path : String) (failure : FileFailure)
deriving DecidableEq

namespace SaveError

def directoryText (path message : String) : String :=
  "Failed to create directory " ++ path ++ ": " ++ message

def fileText (path message : String) : String :=
  "Failed to write certificate to " ++ path ++ ": " ++ message

def message : SaveError → String
  | .directory path failure => directoryText path failure.message
  | .file path failure => fileText path failure.message

end SaveError

structure Disk (m : Type → Type) where
  createDirectories : RawText → m (Except FileFailure Unit)
  writeFile : RawText → List UInt8 → m (Except FileFailure Unit)

def FileTree.disk : Disk (StateM FileTree) where
  createDirectories path := fun tree => tree.createDirectories path
  writeFile path content := fun tree => tree.writeFile path content

def label (domain : String) (date : Date) : String :=
  domain ++ "_" ++ date.text

def directoryFor (base : RawText) (domain : String) (date : Date) : RawText :=
  Path.join base (label domain date)

def fileName (label : String) (index : Nat) : String :=
  label ++ "_" ++ toString index ++ ".pem"

variable {m : Type → Type} [Monad m]

def saveFrom (disk : Disk m) (directory : RawText) (label : String) :
    (index : Nat) → List (List UInt8) → m (Except SaveError (List RawText))
  | _, [] => pure (.ok [])
  | index, der :: rest => do
      let path := Path.join directory (fileName label index)
      match ← disk.writeFile path (Utf8.encode (Pem.certificateText der)) with
      | .error failure => pure (.error (.file path.shown failure))
      | .ok () => do
          match ← saveFrom disk directory label (index + 1) rest with
          | .error error => pure (.error error)
          | .ok paths => pure (.ok (path :: paths))

/-- Save the certificates of an audit and give the paths of their files. -/
def save (disk : Disk m) (base : RawText) (domain : String) (date : Date)
    (ders : List (List UInt8)) : m (Except SaveError (List RawText)) := do
  let directory := directoryFor base domain date
  match ← disk.createDirectories directory with
  | .error failure => pure (.error (.directory directory.shown failure))
  | .ok () => saveFrom disk directory (label domain date) 0 ders

end CertificateAudit.Store
