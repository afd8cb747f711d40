import CertificateAudit.Proofs.Store.Containment

/-!
Saving the same certificates a second time changes nothing (`save_again`): not even the order in
which the tree lists what it holds. The directory is there already, and a saving puts its files
at distinct places, so putting them again takes them out and puts them back as they were
(`FileTree.putAll_putAll`).
-/

namespace CertificateAudit.Store

open CertificateAudit.Calendar CertificateAudit.Text

namespace FileTree

variable {tree : FileTree} {files : List (Place × Node)}

/-- Put one thing after the other. -/
def putAll (tree : FileTree) : List (Place × Node) → FileTree
  | [] => tree
  | (place, node) :: files => (tree.put place node).putAll files

theorem workingDirectory_putAll (tree : FileTree) (files : List (Place × Node)) :
    (tree.putAll files).workingDirectory = tree.workingDirectory := by
  induction files generalizing tree with
  | nil => rfl
  | cons file files inductionHypothesis => exact inductionHypothesis _

/-- What is put at distinct places is listed last first, before whatever else there is. -/
theorem entries_putAll (distinct : (files.map Prod.fst).Nodup) (tree : FileTree) :
    (tree.putAll files).entries =
      files.reverse ++ tree.entries.filter fun entry => entry.1 ∉ files.map Prod.fst := by
  induction files generalizing tree with
  | nil => simp [putAll]
  | cons file files inductionHypothesis =>
      obtain ⟨place, node⟩ := file
      obtain ⟨notLater, others⟩ := List.nodup_cons.mp distinct
      have others := inductionHypothesis others (tree.put place node)
      rw [put, List.filter_cons_of_pos (by simpa using notLater), List.filter_filter] at others
      rw [putAll, put, others, List.reverse_cons, List.append_assoc, List.singleton_append]
      congr 2
      apply List.filter_congr
      intro entry _
      rw [Bool.eq_iff_iff]
      simp only [Bool.and_eq_true, decide_eq_true_eq, bne_iff_ne, List.map_cons, List.mem_cons,
        not_or]
      exact and_comm

theorem putAll_putAll (distinct : (files.map Prod.fst).Nodup) (tree : FileTree) :
    (tree.putAll files).putAll files = tree.putAll files := by
  have takenOut : files.reverse.filter (fun entry => entry.1 ∉ files.map Prod.fst) = [] := by
    rw [List.filter_eq_nil_iff]
    intro entry membership
    have listed : entry.1 ∈ files.map Prod.fst :=
      List.mem_map_of_mem (List.mem_reverse.mp membership)
    simpa only [decide_eq_true_eq, not_not] using listed
  have entries : ((tree.putAll files).putAll files).entries = (tree.putAll files).entries := by
    rw [entries_putAll distinct, entries_putAll distinct, List.filter_append, takenOut,
      List.nil_append, List.filter_filter]
    simp
  have start := workingDirectory_putAll (tree.putAll files) files
  generalize (tree.putAll files).putAll files = again at entries start ⊢
  cases again
  cases entries
  cases start
  rfl

theorem KeepsDirectories.put_file_both {later : FileTree} {place : Place} (below : place ≠ [])
    (kept : tree.KeepsDirectories later) (content : List UInt8) :
    (tree.put place (.file content)).KeepsDirectories (later.put place (.file content)) := by
  refine ⟨kept.workingDirectory_eq, ?_⟩
  intro other present
  have differs : other ≠ place := by
    rintro rfl
    rw [lookup_put_self below] at present
    cases present
  rw [lookup_put_of_ne differs] at present ⊢
  exact kept.directory present

theorem lookup_put_ne_directory {place other : Place} (below : place ≠ [])
    (noDirectory : tree.lookup other ≠ some .directory) (content : List UInt8) :
    (tree.put place (.file content)).lookup other ≠ some .directory := by
  by_cases same : other = place
  · subst same
    rw [lookup_put_self below]
    exact nofun
  · rw [lookup_put_of_ne same]
    exact noDirectory

end FileTree

variable {tree tree' : FileTree} {directory : RawText} {label : String} {ders : List (List UInt8)}
  {paths : List RawText}

/-- The files that a saving writes, in their order: in every tree that keeps the directories of
the first and has none at their places, the saving succeeds and puts just these files. -/
structure Writes (directory : RawText) (label : String) (index : Nat) (ders : List (List UInt8))
    (paths : List RawText) (tree : FileTree) (files : List (Place × Node)) : Prop where
  distinct : (files.map Prod.fst).Nodup
  endsIn : ∀ {stem}, (∀ number,
      (Path.names (Path.join directory (fileName label number))).getLast? =
        some (numbered stem number)) →
    ∀ file ∈ files, ∃ number parent, index ≤ number ∧ file.1 = parent ++ [numbered stem number]
  succeeds : ∀ {later : FileTree}, tree.KeepsDirectories later →
    (∀ file ∈ files, later.lookup file.1 ≠ some .directory) →
    saveFrom FileTree.disk directory label index ders later = (.ok paths, later.putAll files)

/-- One more file in front. Its place is new, because the last names of the places are those of
the numbers. -/
theorem Writes.cons {index : Nat} {der : List UInt8} {place : Place}
    {files : List (Place × Node)}
    (leads : tree.LeadsTo (Path.join directory (fileName label index)) place)
    (writes : Writes directory label (index + 1) ders paths
      (tree.put place (.file (certificateFile der))) files) :
    Writes directory label index (der :: ders)
      (Path.join directory (fileName label index) :: paths) tree
      ((place, .file (certificateFile der)) :: files) where
  distinct := by
    obtain ⟨stem, names⟩ := exists_getLast?_names_fileName directory label
    obtain ⟨parent, isPlace⟩ := exists_place_of_leadsTo names leads
    refine List.nodup_cons.mpr ⟨?_, writes.distinct⟩
    intro again
    obtain ⟨file, membership, same⟩ := List.mem_map.mp again
    obtain ⟨number, other, later, isOther⟩ := writes.endsIn names file membership
    rw [isOther, isPlace] at same
    have sameName := List.singleton_inj.mp (List.append_inj' same rfl).2
    have sameNumber := numbered_injective sameName
    omega
  endsIn := by
    intro stem names file membership
    rcases List.mem_cons.mp membership with rfl | membership
    · obtain ⟨parent, isPlace⟩ := exists_place_of_leadsTo names leads
      exact ⟨index, parent, Nat.le_refl index, isPlace⟩
    · obtain ⟨number, parent, later, isPlace⟩ := writes.endsIn names file membership
      exact ⟨number, parent, Nat.le_of_succ_le later, isPlace⟩
  succeeds := by
    intro later kept free
    have again : later.writeFile (Path.join directory (fileName label index))
        (certificateFile der) = (.ok (), later.put place (.file (certificateFile der))) :=
      FileTree.writeFile_eq_ok_iff.mpr
        ⟨place, kept.leadsTo leads, free _ List.mem_cons_self, rfl⟩
    apply saveFrom_of_writeFile again
    apply writes.succeeds
    · exact kept.put_file_both leads.ne_nil _
    · intro file membership
      exact FileTree.lookup_put_ne_directory leads.ne_nil
        (free file (List.mem_cons_of_mem _ membership)) _

theorem exists_writes {index : Nat}
    (saved : saveFrom FileTree.disk directory label index ders tree = (.ok paths, tree')) :
    ∃ files, Writes directory label index ders paths tree files ∧ tree' = tree.putAll files ∧
      ∀ file ∈ files, tree'.lookup file.1 ≠ some .directory := by
  induction ders generalizing index tree paths with
  | nil =>
      cases saved
      refine ⟨[], ⟨.nil, ?_, ?_⟩, rfl, ?_⟩
      · intro _ _ file absent
        cases absent
      · intro later _ _
        rfl
      · intro file absent
        cases absent
  | cons der ders inductionHypothesis =>
      obtain ⟨middle, others, written, behind, rfl⟩ := saveFrom_cons_eq_ok saved
      obtain ⟨files, writes, rfl, noDirectories⟩ := inductionHypothesis behind
      obtain ⟨place, leads, noDirectory, rfl⟩ := FileTree.writeFile_eq_ok_iff.mp written
      refine ⟨_, writes.cons leads, rfl, ?_⟩
      intro file membership
      rcases List.mem_cons.mp membership with rfl | membership
      · rcases saveFrom_lookup_eq_or behind place with same | ⟨_, _, _, _, isFile⟩
        · rw [same, FileTree.lookup_put_self leads.ne_nil]
          exact nofun
        · rw [isFile]
          exact nofun
      · exact noDirectories file membership

theorem saveFrom_again {index : Nat}
    (saved : saveFrom FileTree.disk directory label index ders tree = (.ok paths, tree')) :
    saveFrom FileTree.disk directory label index ders tree' = (.ok paths, tree') := by
  obtain ⟨files, writes, rfl, noDirectories⟩ := exists_writes saved
  have again := writes.succeeds (saveFrom_keepsDirectories saved) noDirectories
  rwa [FileTree.putAll_putAll writes.distinct] at again

theorem save_again {base : RawText} {domain : String} {date : Date}
    (saved : save FileTree.disk base domain date ders tree = (.ok paths, tree')) :
    save FileTree.disk base domain date ders tree' = (.ok paths, tree') := by
  rcases save_cases saved with ⟨_, _, failed⟩ | ⟨middle, made, behind⟩
  · cases failed
  · have there := FileTree.createDirectories_again made (saveFrom_keepsDirectories behind)
    exact save_of_createDirectories there (saveFrom_again behind)

end CertificateAudit.Store
