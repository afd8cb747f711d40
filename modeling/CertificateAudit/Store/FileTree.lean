import CertificateAudit.Store.Path

/-!
A tree of directories and files as a value, and the two operations that change it. Paths are
resolved name by name; a double dot leads to the parent of the directory reached so far.
-/

namespace CertificateAudit.Store

open CertificateAudit.Text

inductive FileFailure where
  | noSuchFile
  | fileExists
  | notDirectory
  | isDirectory
  | nameTooLong
  | nulByte
  | system (text : String)
deriving DecidableEq

def FileFailure.message : FileFailure → String
  | .noSuchFile => "No such file or directory (os error 2)"
  | .fileExists => "File exists (os error 17)"
  | .notDirectory => "Not a directory (os error 20)"
  | .isDirectory => "Is a directory (os error 21)"
  | .nameTooLong => "File name too long (os error 36)"
  | .nulByte => "file name contained an unexpected NUL byte"
  | .system text => text

inductive Node where
  | directory
  | file (content : List UInt8)
deriving DecidableEq

/-- A place in the tree: the names that lead to it from the root. -/
abbrev Place := List RawText

/-- A tree. Every place is listed at most once, the root never. -/
structure FileTree where
  entries : List (Place × Node) := []
  /-- Where relative paths start. -/
  workingDirectory : Place := []
deriving DecidableEq

namespace FileTree

def lookup (tree : FileTree) (place : Place) : Option Node :=
  if place.isEmpty then some .directory else tree.entries.lookup place

def put (tree : FileTree) (place : Place) (node : Node) : FileTree :=
  { tree with entries := (place, node) :: tree.entries.filter fun entry => entry.1 != place }

def isLongName (name : RawText) : Bool :=
  255 < name.bytes.length

/-- Walk from a directory through the names of directories. -/
def descend (tree : FileTree) : (here : Place) → List RawText → Except FileFailure Place
  | here, [] => .ok here
  | here, name :: names =>
      if name = Path.up then descend tree here.dropLast names
      else if isLongName name then .error .nameTooLong
      else
        match tree.lookup (here ++ [name]) with
        | none => .error .noSuchFile
        | some (.file _) => .error .notDirectory
        | some .directory => descend tree (here ++ [name]) names

def start (tree : FileTree) (path : RawText) : Place :=
  if Path.isAbsolute path then [] else tree.workingDirectory

def makeDirectory (tree : FileTree) (here : Place) (names : List RawText) :
    Except FileFailure FileTree :=
  match names.getLast? with
  | none => .error .fileExists
  | some name => do
      let parent ← tree.descend here names.dropLast
      if name = Path.up then .error .fileExists
      else if isLongName name then .error .nameTooLong
      else
        match tree.lookup (parent ++ [name]) with
        | some _ => .error .fileExists
        | none => .ok (tree.put (parent ++ [name]) .directory)

def leadsToDirectory (tree : FileTree) (here : Place) (names : List RawText) : Bool :=
  match tree.descend here names with
  | .ok _ => true
  | .error _ => false

/-- Make a directory and the parents that are missing. The names are given last first. A
directory that is there already does no harm. -/
def makeUpTo (here : Place) : (reversed : List RawText) → FileTree →
    Except FileFailure Unit × FileTree
  | [], tree => (.ok (), tree)
  | name :: parents, tree =>
      let names := (name :: parents).reverse
      match tree.makeDirectory here names with
      | .ok tree => (.ok (), tree)
      | .error .noSuchFile =>
          match makeUpTo here parents tree with
          | (.error failure, tree) => (.error failure, tree)
          | (.ok (), tree) =>
              match tree.makeDirectory here names with
              | .ok tree => (.ok (), tree)
              | .error failure =>
                  if failure = .fileExists ∧ tree.leadsToDirectory here names then (.ok (), tree)
                  else (.error failure, tree)
      | .error failure =>
          if failure = .fileExists ∧ tree.leadsToDirectory here names then (.ok (), tree)
          else (.error failure, tree)

/-- What makes a path unusable whatever stands in the tree. -/
def pathFailure? (path : RawText) : Option FileFailure :=
  if path.bytes.contains 0 then some .nulByte
  else if 4095 < path.bytes.length then some .nameTooLong
  else none

def createDirectories (path : RawText) (tree : FileTree) : Except FileFailure Unit × FileTree :=
  match pathFailure? path with
  | some failure => (.error failure, tree)
  | none => makeUpTo (tree.start path) (Path.names path).reverse tree

def writeFile (path : RawText) (content : List UInt8) (tree : FileTree) :
    Except FileFailure Unit × FileTree :=
  match pathFailure? path, (Path.names path).getLast? with
  | some failure, _ => (.error failure, tree)
  | none, none => (.error .isDirectory, tree)
  | none, some name =>
      match tree.descend (tree.start path) (Path.names path).dropLast with
      | .error failure => (.error failure, tree)
      | .ok parent =>
          if name = Path.up then (.error .isDirectory, tree)
          else if isLongName name then (.error .nameTooLong, tree)
          else
            match tree.lookup (parent ++ [name]) with
            | some .directory => (.error .isDirectory, tree)
            | _ => (.ok (), tree.put (parent ++ [name]) (.file content))

def nodeAt? (path : RawText) (tree : FileTree) : Option Node :=
  match pathFailure? path, (Path.names path).getLast? with
  | some _, _ => none
  | none, none => some .directory
  | none, some name =>
      match tree.descend (tree.start path) (Path.names path).dropLast with
      | .error _ => none
      | .ok parent =>
          if name = Path.up then some .directory
          else if isLongName name then none
          else tree.lookup (parent ++ [name])

def readFile? (path : RawText) (tree : FileTree) : Option (List UInt8) :=
  match tree.nodeAt? path with
  | some (.file content) => some content
  | _ => none

end FileTree

end CertificateAudit.Store
