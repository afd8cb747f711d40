import CertificateAudit.Store.FileTree

/-!
What writing a file does to a tree. A path leads to a place in a directory whatever stands
there (`FileTree.LeadsTo`); reading looks that place up and writing puts the content there.
Writing keeps every directory, so afterwards all paths lead where they led before.
-/

namespace CertificateAudit.Store.FileTree

open CertificateAudit.Text

variable {tree tree' : FileTree} {path : RawText} {place other : Place}

theorem lookup_filter_ne {entries : List (Place × Node)} (differs : other ≠ place) :
    (entries.filter fun entry => entry.1 != place).lookup other = entries.lookup other := by
  induction entries with
  | nil => rfl
  | cons entry entries inductionHypothesis =>
      obtain ⟨key, node⟩ := entry
      by_cases replaced : key = place
      · have skipped : (other == key) = false := by simp [replaced, differs]
        subst replaced
        simpa [List.lookup_cons, skipped] using inductionHypothesis
      · by_cases sought : other = key
        · simp [replaced, sought]
        · have skipped : (other == key) = false := by simp [sought]
          simpa [replaced, List.lookup_cons, skipped] using inductionHypothesis

theorem lookup_put_self (below : place ≠ []) (node : Node) :
    (tree.put place node).lookup place = some node := by
  simp [lookup, put, below]

theorem lookup_put_of_ne (differs : other ≠ place) (node : Node) :
    (tree.put place node).lookup other = tree.lookup other := by
  have skipped : (other == place) = false := by simp [differs]
  simp [lookup, put, List.lookup_cons, skipped, lookup_filter_ne differs]

/-- The path is that of a file or directory at this place, if there is one: its directory is
there and its last name can be one. -/
def LeadsTo (tree : FileTree) (path : RawText) (place : Place) : Prop :=
  pathFailure? path = none ∧
    ∃ name parent, (Path.names path).getLast? = some name ∧ name ≠ Path.up ∧
      isLongName name = false ∧
      tree.descend (tree.start path) (Path.names path).dropLast = .ok parent ∧
      place = parent ++ [name]

theorem LeadsTo.ne_nil (leads : tree.LeadsTo path place) : place ≠ [] := by
  obtain ⟨_, name, parent, _, _, _, _, rfl⟩ := leads
  simp

theorem nodeAt?_of_leadsTo (leads : tree.LeadsTo path place) :
    tree.nodeAt? path = tree.lookup place := by
  obtain ⟨usable, name, parent, last, notUp, short, reached, rfl⟩ := leads
  simp [nodeAt?, usable, last, notUp, short, reached]

theorem exists_leadsTo_of_readFile? {content : List UInt8}
    (read : tree.readFile? path = some content) :
    ∃ place, tree.LeadsTo path place ∧ tree.lookup place = some (.file content) := by
  unfold readFile? at read
  split at read
  case h_2 => cases read
  case h_1 found =>
    cases read
    unfold nodeAt? at found
    split at found
    case h_1 => cases found
    case h_2 => cases found
    case h_3 name usable last =>
      split at found
      case h_1 => cases found
      case h_2 parent reached =>
        split at found
        case isTrue => cases found
        case isFalse notUp =>
          split at found
          case isTrue => cases found
          case isFalse short =>
            exact ⟨parent ++ [name],
              ⟨usable, name, parent, last, notUp, by simpa using short, reached, rfl⟩, found⟩

theorem writeFile_eq_ok_iff {content : List UInt8} :
    tree.writeFile path content = (.ok (), tree') ↔
      ∃ place, tree.LeadsTo path place ∧ tree.lookup place ≠ some .directory ∧
        tree' = tree.put place (.file content) := by
  constructor
  · intro written
    unfold writeFile at written
    split at written
    case h_1 => cases written
    case h_2 => cases written
    case h_3 name usable last =>
      split at written
      case h_1 => cases written
      case h_2 parent reached =>
        split at written
        case isTrue => cases written
        case isFalse notUp =>
          split at written
          case isTrue => cases written
          case isFalse short =>
            split at written
            case h_1 => cases written
            case h_2 noDirectory =>
              cases written
              refine ⟨parent ++ [name], ⟨usable, name, parent, last, notUp, ?_, reached, rfl⟩,
                noDirectory, rfl⟩
              simpa using short
  · rintro ⟨place, ⟨usable, name, parent, last, notUp, short, reached, rfl⟩, noDirectory, rfl⟩
    simp only [writeFile, usable, last, reached, notUp, short, Bool.false_eq_true, if_false]

/-- A file that is not written leaves the tree as it is. -/
theorem eq_of_writeFile_eq_error {content : List UInt8} {failure : FileFailure}
    (failed : tree.writeFile path content = (.error failure, tree')) : tree' = tree := by
  unfold writeFile at failed
  repeat' split at failed
  all_goals cases failed <;> rfl

/-- Every directory is still there, and relative paths start where they started. -/
structure KeepsDirectories (tree tree' : FileTree) : Prop where
  workingDirectory_eq : tree'.workingDirectory = tree.workingDirectory
  directory : ∀ {place}, tree.lookup place = some .directory →
    tree'.lookup place = some .directory

namespace KeepsDirectories

theorem refl (tree : FileTree) : tree.KeepsDirectories tree := ⟨rfl, id⟩

theorem trans {last : FileTree} (first : tree.KeepsDirectories tree')
    (second : tree'.KeepsDirectories last) : tree.KeepsDirectories last := by
  refine ⟨second.workingDirectory_eq.trans first.workingDirectory_eq, ?_⟩
  intro place present
  exact second.directory (first.directory present)

theorem put_file (noDirectory : tree.lookup place ≠ some .directory) (content : List UInt8) :
    tree.KeepsDirectories (tree.put place (.file content)) := by
  refine ⟨rfl, ?_⟩
  intro other present
  have differs : other ≠ place := by
    rintro rfl
    exact noDirectory present
  rw [lookup_put_of_ne differs]
  exact present

theorem descend_eq_ok (kept : tree.KeepsDirectories tree') {here there : Place}
    {names : List RawText} (reached : tree.descend here names = .ok there) :
    tree'.descend here names = .ok there := by
  induction names generalizing here with
  | nil => exact reached
  | cons name names inductionHypothesis =>
      unfold descend at reached ⊢
      split
      case isTrue up =>
        rw [if_pos up] at reached
        exact inductionHypothesis reached
      case isFalse down =>
        rw [if_neg down] at reached
        split
        case isTrue long =>
          rw [if_pos long] at reached
          cases reached
        case isFalse short =>
          rw [if_neg short] at reached
          split at reached
          case h_1 => cases reached
          case h_2 => cases reached
          case h_3 present =>
            rw [kept.directory present]
            exact inductionHypothesis reached

theorem start_eq (kept : tree.KeepsDirectories tree') (path : RawText) :
    tree'.start path = tree.start path := by
  simp only [start, kept.workingDirectory_eq]

theorem leadsTo (kept : tree.KeepsDirectories tree') (leads : tree.LeadsTo path place) :
    tree'.LeadsTo path place := by
  obtain ⟨usable, name, parent, last, notUp, short, reached, rfl⟩ := leads
  refine ⟨usable, name, parent, last, notUp, short, ?_, rfl⟩
  rw [kept.start_eq]
  exact kept.descend_eq_ok reached

end KeepsDirectories

end CertificateAudit.Store.FileTree
