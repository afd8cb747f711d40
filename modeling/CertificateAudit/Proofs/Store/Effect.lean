import CertificateAudit.Proofs.Store.Containment

/-!
What a saving does to a tree, whichever way it ends. A saving that stops at a file has done what a
saving of the certificates in front of that one does (`saveFrom_stops`). So the files up to some
number hold their certificates, and no other regular file is made, changed or removed:
`save_effect`.
-/

namespace CertificateAudit.Store

open CertificateAudit.Calendar CertificateAudit.Text

variable {tree tree' : FileTree} {directory : RawText} {label : String} {ders : List (List UInt8)}
  {paths : List RawText}

/-- A saving that stops at a file has done what a saving of the certificates in front does. -/
theorem saveFrom_stops {index : Nat} {error : SaveError}
    (stopped : saveFrom FileTree.disk directory label index ders tree = (.error error, tree')) :
    ∃ offset der failure paths, ders[offset]? = some der ∧
      error = .file (Path.join directory (fileName label (index + offset))).shown failure ∧
      tree'.writeFile (Path.join directory (fileName label (index + offset)))
        (certificateFile der) = (.error failure, tree') ∧
      saveFrom FileTree.disk directory label index (ders.take offset) tree =
        (.ok paths, tree') := by
  induction ders generalizing index tree with
  | nil => cases stopped
  | cons der ders inductionHypothesis =>
      rcases saveFrom_cons stopped with
        ⟨failure, failed, same⟩ | ⟨middle, rest, written, behind, same⟩
      · cases same
        obtain rfl := FileTree.eq_of_writeFile_eq_error failed
        exact ⟨0, der, failure, [], rfl, rfl, failed, rfl⟩
      · cases rest with
        | ok others => cases same
        | error error' =>
            cases same
            obtain ⟨offset, other, failure, paths, isOther, rfl, failed, front⟩ :=
              inductionHypothesis behind
            have number : index + 1 + offset = index + (offset + 1) := by omega
            rw [number] at failed ⊢
            exact ⟨offset + 1, other, failure, _, isOther, rfl, failed,
              saveFrom_of_writeFile written front⟩

/-- A certificate that was saved is in the file of its number. -/
theorem saveFrom_holds {index offset : Nat} {der : List UInt8}
    (saved : saveFrom FileTree.disk directory label index ders tree = (.ok paths, tree'))
    (isDer : ders[offset]? = some der) :
    tree'.readFile? (Path.join directory (fileName label (index + offset))) =
      some (certificateFile der) := by
  have held := saveFrom_readFile? saved
  obtain ⟨bound, rfl⟩ := List.getElem?_eq_some_iff.mp isDer
  rw [saveFrom_paths saved, List.forall₂_map_left_iff, List.forall₂_iff_get] at held
  have read := held.2 offset (by simpa using bound) bound
  rwa [List.get_eq_getElem, List.getElem_range', Nat.one_mul] at read

/-- Numbered files lead to places that differ in nothing but the number. -/
theorem exists_target_fileName (tree : FileTree) (directory : RawText) (label : String) :
    ∃ (parent : Place) (stem : RawText), ∀ index,
      tree.target (Path.join directory (fileName label index)) =
        parent ++ [numbered stem index] := by
  obtain ⟨before, stem, names⟩ := exists_names_fileName directory label
  have sameStart (index : Nat) :
      tree.start (Path.join directory (fileName label index)) =
        tree.start (Path.join directory label) := by
    rw [join_fileName, FileTree.start, isAbsolute_numbered, ← FileTree.start]
  refine ⟨Place.walk (tree.start (Path.join directory label)) before, stem, ?_⟩
  intro index
  rw [FileTree.target, names, sameStart, Place.walk_concat _ _ (numbered_ne_up stem index)]

theorem target_fileName_injective {index other : Nat}
    (same : tree.target (Path.join directory (fileName label index)) =
      tree.target (Path.join directory (fileName label other))) : index = other := by
  obtain ⟨parent, stem, place⟩ := exists_target_fileName tree directory label
  rw [place, place, List.append_cancel_left_eq, List.singleton_inj] at same
  exact numbered_injective same

/-- The path of the file with a number. -/
def filePath (base : RawText) (domain : String) (date : Date) (index : Nat) : RawText :=
  Path.join (directoryFor base domain date) (fileName (Store.label domain date) index)

/-- From one tree to the other the certificates below a number have been saved and nothing else
has happened to a regular file or to a directory that was there. -/
structure HasSaved (base : RawText) (domain : String) (date : Date) (ders : List (List UInt8))
    (count : Nat) (tree tree' : FileTree) : Prop where
  holds : ∀ index < count, ∃ der, ders[index]? = some der ∧
    tree'.readFile? (filePath base domain date index) = some (certificateFile der)
  others : ∀ place, (∀ index < count, place ≠ tree.target (filePath base domain date index)) →
    ∀ content, tree'.lookup place = some (.file content) ↔
      tree.lookup place = some (.file content)
  directories : tree.KeepsDirectories tree'

variable {base : RawText} {domain : String} {date : Date} {count : Nat}

/-- No file of a number that was not reached is made or changed. -/
theorem HasSaved.later (saved : HasSaved base domain date ders count tree tree') {index : Nat}
    (notReached : count ≤ index) (content : List UInt8) :
    tree'.lookup (tree.target (filePath base domain date index)) = some (.file content) ↔
      tree.lookup (tree.target (filePath base domain date index)) = some (.file content) := by
  apply saved.others
  intro other reached same
  have sameNumber := target_fileName_injective same
  omega

theorem hasSaved_of_saveFrom {here : Place} {names : List RawText} {middle : FileTree}
    (bounded : count ≤ ders.length) (grows : FileTree.GrowsAlong here names tree middle)
    (saved : saveFrom FileTree.disk (directoryFor base domain date) (Store.label domain date) 0
      (ders.take count) middle = (.ok paths, tree')) :
    HasSaved base domain date ders count tree tree' := by
  refine ⟨?_, ?_, grows.keepsDirectories.trans (saveFrom_keepsDirectories saved)⟩
  · intro index below
    have isDer := List.getElem?_eq_getElem (Nat.lt_of_lt_of_le below bounded)
    have isTaken : (ders.take count)[index]? = some _ :=
      (List.getElem?_take_of_lt below).trans isDer
    have held := saveFrom_holds saved isTaken
    rw [Nat.zero_add] at held
    exact ⟨_, isDer, held⟩
  · intro place foreign content
    rcases saveFrom_lookup_eq_or saved place with same | ⟨index, der, isTaken, isPlace, _⟩
    · rw [same]
      exact grows.lookup_file_iff content
    · have below : index < count := by
        have bound := (List.getElem?_eq_some_iff.mp isTaken).1
        rw [List.length_take] at bound
        omega
      rw [Nat.zero_add, grows.keepsDirectories.target_eq] at isPlace
      exact absurd isPlace (foreign index below)

/-- Whichever way a saving ends, what it has done is known. If it succeeds, it gives the paths in
the order of the certificates, whose files hold them. If the directory cannot be made, no regular
file is touched. If the file of some number cannot be written, the error names it, the files
below it hold their certificates, and no file of that or a later number is touched. No other
regular file is ever made, changed or removed, and no directory goes. -/
theorem save_effect {result : Except SaveError (List RawText)}
    (saved : save FileTree.disk base domain date ders tree = (result, tree')) :
    ((tree.createDirectories (directoryFor base domain date)).1 = .ok () ∧
      result = .ok ((List.range ders.length).map (filePath base domain date)) ∧
      HasSaved base domain date ders ders.length tree tree') ∨
    (∃ failure, tree.createDirectories (directoryFor base domain date) = (.error failure, tree') ∧
      result = .error (.directory (directoryFor base domain date).shown failure) ∧
      HasSaved base domain date ders 0 tree tree') ∨
    ∃ count der failure,
      (tree.createDirectories (directoryFor base domain date)).1 = .ok () ∧
      ders[count]? = some der ∧
      tree'.writeFile (filePath base domain date count) (certificateFile der) =
        (.error failure, tree') ∧
      result = .error (.file (filePath base domain date count).shown failure) ∧
      HasSaved base domain date ders count tree tree' ∧
      ∀ index, count ≤ index → ∀ content,
        tree'.lookup (tree.target (filePath base domain date index)) = some (.file content) ↔
          tree.lookup (tree.target (filePath base domain date index)) = some (.file content) := by
  rcases save_cases saved with ⟨failure, made, rfl⟩ | ⟨middle, made, behind⟩
  · have grows := (FileTree.createDirectories_growsAlong made).1
    refine .inr (.inl ⟨failure, made, rfl, ?_, ?_, grows.keepsDirectories⟩)
    · intro index below
      exact absurd below (Nat.not_lt_zero index)
    · intro place _ content
      exact grows.lookup_file_iff content
  · have grows := (FileTree.createDirectories_growsAlong made).1
    have success := congrArg Prod.fst made
    cases result with
    | ok paths =>
        refine .inl ⟨success, ?_, ?_⟩
        · rw [saveFrom_paths behind, ← List.range_eq_range']
          rfl
        · apply hasSaved_of_saveFrom (Nat.le_refl _) grows
          rwa [List.take_length]
    | error error =>
        obtain ⟨count, der, failure, paths, isDer, rfl, failed, front⟩ := saveFrom_stops behind
        rw [Nat.zero_add] at failed ⊢
        have bounded := Nat.le_of_lt (List.getElem?_eq_some_iff.mp isDer).1
        have effect := hasSaved_of_saveFrom bounded grows front
        exact .inr (.inr ⟨count, der, failure, success, isDer, failed, rfl, effect,
          fun _ notReached content => effect.later notReached content⟩)

/-- A directory stands where the second certificate would be written. -/
def obstructedTree : FileTree where
  entries := [
    (["out"], .directory),
    (["out", "a_2024-08-30"], .directory),
    (["out", "a_2024-08-30", "a_2024-08-30_0.pem"], .file [9]),
    (["out", "a_2024-08-30", "a_2024-08-30_1.pem"], .directory)]

def stoppedTree : FileTree :=
  (save FileTree.disk "out" "a" sampleDay [[1], [2], [3]] obstructedTree).2

theorem stoppedTree_saved :
    save FileTree.disk "out" "a" sampleDay [[1], [2], [3]] obstructedTree =
      (.error (.file "out/a_2024-08-30/a_2024-08-30_1.pem" .isDirectory), stoppedTree) := by
  have stopped : (save FileTree.disk "out" "a" sampleDay [[1], [2], [3]] obstructedTree).1 =
      .error (.file "out/a_2024-08-30/a_2024-08-30_1.pem" .isDirectory) := by
    decide +kernel
  exact Prod.ext stopped (by rw [stoppedTree])

theorem save_effect_stoppedTree :
    save FileTree.disk "out" "a" sampleDay [[1], [2], [3]] obstructedTree =
        (.error (.file "out/a_2024-08-30/a_2024-08-30_1.pem" .isDirectory), stoppedTree) ∧
      HasSaved "out" "a" sampleDay [[1], [2], [3]] 1 obstructedTree stoppedTree := by
  refine ⟨stoppedTree_saved, ?_⟩
  rcases save_effect stoppedTree_saved with
    ⟨_, failed, _⟩ | ⟨_, _, failed, _⟩ | ⟨count, _, _, _, isDer, _, failed, effect, _⟩
  · cases failed
  · cases failed
  · have samePath := (SaveError.file.inj (Except.error.inj failed)).1
    have bound : count < 3 := (List.getElem?_eq_some_iff.mp isDer).1
    have second : ∀ index < 3, "out/a_2024-08-30/a_2024-08-30_1.pem" =
        (filePath "out" "a" sampleDay index).shown → index = 1 := by
      decide +kernel
    obtain rfl := second count bound samePath
    exact effect

end CertificateAudit.Store
