import CertificateAudit.Proofs.Store.FileTree
import CertificateAudit.Proofs.Store.Path
import Mathlib.Data.List.Forall2
import Mathlib.Data.List.Nodup

/-!
What saving leaves in a file tree. If it succeeds, the paths are those of the numbers from zero
on, no two of them alike, and every file holds its certificate: `save_eq_ok`.
-/

namespace CertificateAudit.Store

open CertificateAudit.Calendar CertificateAudit.Text

variable {tree tree' : FileTree} {directory : RawText} {label : String} {ders : List (List UInt8)}
  {paths : List RawText}

/-- The bytes of the file of a certificate. -/
def certificateFile (der : List UInt8) : List UInt8 :=
  Utf8.encode (Pem.writeCertificate der).toList

/-- Saving stops at a file that cannot be written, and else goes on with the next number. -/
theorem saveFrom_cons {index : Nat} {der : List UInt8}
    {result : Except SaveError (List RawText)}
    (saved : saveFrom FileTree.disk directory label index (der :: ders) tree =
      (result, tree')) :
    (∃ failure, tree.writeFile (Path.join directory (fileName label index))
        (certificateFile der) = (.error failure, tree') ∧
      result = .error (.file (Path.join directory (fileName label index)).shown failure)) ∨
    ∃ middle rest,
      tree.writeFile (Path.join directory (fileName label index)) (certificateFile der) =
        (.ok (), middle) ∧
      saveFrom FileTree.disk directory label (index + 1) ders middle = (rest, tree') ∧
      result = rest.map fun others => Path.join directory (fileName label index) :: others := by
  have content : Utf8.encode (Pem.certificateText der) = certificateFile der := by
    simp [certificateFile, Pem.writeCertificate]
  rcases written : FileTree.disk.writeFile (Path.join directory (fileName label index))
    (certificateFile der) tree with ⟨outcome, middle⟩
  simp only [saveFrom, content, bind, StateT.bind, written] at saved
  cases outcome with
  | error failure =>
      cases saved
      exact .inl ⟨failure, written, rfl⟩
  | ok done =>
      rcases behind : saveFrom FileTree.disk directory label (index + 1) ders middle with
        ⟨rest, last⟩
      simp only [StateT.bind, behind] at saved
      cases rest with
      | error error =>
          cases saved
          exact .inr ⟨middle, _, written, behind, rfl⟩
      | ok others =>
          cases saved
          exact .inr ⟨middle, _, written, behind, rfl⟩

theorem saveFrom_cons_eq_ok {index : Nat} {der : List UInt8}
    (saved : saveFrom FileTree.disk directory label index (der :: ders) tree =
      (.ok paths, tree')) :
    ∃ middle others,
      tree.writeFile (Path.join directory (fileName label index)) (certificateFile der) =
        (.ok (), middle) ∧
      saveFrom FileTree.disk directory label (index + 1) ders middle = (.ok others, tree') ∧
      paths = Path.join directory (fileName label index) :: others := by
  rcases saveFrom_cons saved with ⟨_, _, failed⟩ | ⟨middle, rest, written, behind, done⟩
  · cases failed
  · cases rest with
    | error error => cases done
    | ok others =>
        cases done
        exact ⟨middle, others, written, behind, rfl⟩

theorem saveFrom_of_writeFile {index : Nat} {der : List UInt8} {middle : FileTree}
    {others : List RawText}
    (written : tree.writeFile (Path.join directory (fileName label index))
      (certificateFile der) = (.ok (), middle))
    (behind : saveFrom FileTree.disk directory label (index + 1) ders middle =
      (.ok others, tree')) :
    saveFrom FileTree.disk directory label index (der :: ders) tree =
      (.ok (Path.join directory (fileName label index) :: others), tree') := by
  have content : Utf8.encode (Pem.certificateText der) = certificateFile der := by
    simp [certificateFile, Pem.writeCertificate]
  have first : FileTree.disk.writeFile (Path.join directory (fileName label index))
    (certificateFile der) tree = (.ok (), middle) := written
  simp only [saveFrom, content, bind, StateT.bind, first, behind]
  rfl

theorem saveFrom_paths {index : Nat}
    (saved : saveFrom FileTree.disk directory label index ders tree = (.ok paths, tree')) :
    paths = (List.range' index ders.length).map fun number =>
      Path.join directory (fileName label number) := by
  induction ders generalizing index tree paths with
  | nil =>
      cases saved
      rfl
  | cons der ders inductionHypothesis =>
      obtain ⟨middle, others, _, rest, rfl⟩ := saveFrom_cons_eq_ok saved
      rw [inductionHypothesis rest]
      rfl

theorem saveFrom_keepsDirectories {index : Nat} {result : Except SaveError (List RawText)}
    (saved : saveFrom FileTree.disk directory label index ders tree = (result, tree')) :
    tree.KeepsDirectories tree' := by
  induction ders generalizing index tree result with
  | nil =>
      cases saved
      exact .refl _
  | cons der ders inductionHypothesis =>
      rcases saveFrom_cons saved with ⟨_, failed, _⟩ | ⟨middle, rest, written, behind, _⟩
      · rw [FileTree.eq_of_writeFile_eq_error failed]
        exact .refl _
      · obtain ⟨place, _, noDirectory, rfl⟩ := FileTree.writeFile_eq_ok_iff.mp written
        exact (FileTree.KeepsDirectories.put_file noDirectory _).trans
          (inductionHypothesis behind)

section Numbered

variable {stem : RawText} {index : Nat} {place : Place}
  (names : ∀ number, (Path.names (Path.join directory (fileName label number))).getLast? =
    some (numbered stem number))
include names

theorem exists_place_of_leadsTo
    (leads : tree.LeadsTo (Path.join directory (fileName label index)) place) :
    ∃ parent, place = parent ++ [numbered stem index] := by
  obtain ⟨_, last, parent, isLast, _, _, _, rfl⟩ := leads
  rw [names index] at isLast
  cases isLast
  exact ⟨parent, rfl⟩

/-- What has not the name of any file of the saving is left alone. -/
theorem saveFrom_lookup
    (foreign : ∀ number parent, index ≤ number → place ≠ parent ++ [numbered stem number])
    (saved : saveFrom FileTree.disk directory label index ders tree = (.ok paths, tree')) :
    tree'.lookup place = tree.lookup place := by
  induction ders generalizing index tree paths with
  | nil =>
      cases saved
      rfl
  | cons der ders inductionHypothesis =>
      obtain ⟨middle, others, written, rest, _⟩ := saveFrom_cons_eq_ok saved
      obtain ⟨target, leads, _, rfl⟩ := FileTree.writeFile_eq_ok_iff.mp written
      obtain ⟨parent, rfl⟩ := exists_place_of_leadsTo names leads
      have later : ∀ number parent, index + 1 ≤ number →
          place ≠ parent ++ [numbered stem number] := by
        intro number parent larger
        exact foreign number parent (Nat.le_of_succ_le larger)
      rw [inductionHypothesis later rest]
      exact FileTree.lookup_put_of_ne (foreign index parent (Nat.le_refl index)) _

end Numbered

/-- Later files of a saving do not touch the earlier ones. -/
theorem saveFrom_readFile? {index : Nat}
    (saved : saveFrom FileTree.disk directory label index ders tree = (.ok paths, tree')) :
    List.Forall₂ (fun path der => tree'.readFile? path = some (certificateFile der)) paths
      ders := by
  induction ders generalizing index tree paths with
  | nil =>
      cases saved
      exact .nil
  | cons der ders inductionHypothesis =>
      obtain ⟨middle, others, written, rest, rfl⟩ := saveFrom_cons_eq_ok saved
      refine .cons ?_ (inductionHypothesis rest)
      obtain ⟨place, leads, noDirectory, rfl⟩ := FileTree.writeFile_eq_ok_iff.mp written
      have kept := (FileTree.KeepsDirectories.put_file noDirectory _).trans
        (saveFrom_keepsDirectories rest)
      obtain ⟨stem, names⟩ := exists_getLast?_names_fileName directory label
      obtain ⟨parent, rfl⟩ := exists_place_of_leadsTo names leads
      -- Directories may be reached by several paths, so the places are told apart by their last
      -- names, which are those of the numbers.
      have foreign : ∀ number other, index + 1 ≤ number →
          parent ++ [numbered stem index] ≠ other ++ [numbered stem number] := by
        intro number other later same
        have sameName := (List.append_inj' same rfl).2
        have sameNumber := numbered_injective (List.singleton_inj.mp sameName)
        omega
      have unchanged := saveFrom_lookup names foreign rest
      rw [FileTree.lookup_put_self leads.ne_nil] at unchanged
      rw [FileTree.readFile?, FileTree.nodeAt?_of_leadsTo (kept.leadsTo leads), unchanged]

/-- A saving makes the directory first and writes no file without it. -/
theorem save_cases {base : RawText} {domain : String} {date : Date}
    {result : Except SaveError (List RawText)}
    (saved : save FileTree.disk base domain date ders tree = (result, tree')) :
    (∃ failure, tree.createDirectories (directoryFor base domain date) =
        (.error failure, tree') ∧
      result = .error (.directory (directoryFor base domain date).shown failure)) ∨
    ∃ middle, tree.createDirectories (directoryFor base domain date) = (.ok (), middle) ∧
      saveFrom FileTree.disk (directoryFor base domain date) (Store.label domain date) 0 ders
        middle = (result, tree') := by
  rcases made : FileTree.disk.createDirectories (directoryFor base domain date) tree with
    ⟨outcome, middle⟩
  simp only [save, bind, StateT.bind, made] at saved
  cases outcome with
  | error failure =>
      cases saved
      exact .inl ⟨failure, made, rfl⟩
  | ok done => exact .inr ⟨middle, made, saved⟩

theorem save_of_createDirectories {base : RawText} {domain : String} {date : Date}
    {middle : FileTree} {result : Except SaveError (List RawText)}
    (made : tree.createDirectories (directoryFor base domain date) = (.ok (), middle))
    (behind : saveFrom FileTree.disk (directoryFor base domain date) (Store.label domain date) 0
      ders middle = (result, tree')) :
    save FileTree.disk base domain date ders tree = (result, tree') := by
  have there : FileTree.disk.createDirectories (directoryFor base domain date) tree =
    (.ok (), middle) := made
  simp only [save, bind, StateT.bind, there]
  exact behind

theorem save_paths {base : RawText} {domain : String} {date : Date}
    (saved : save FileTree.disk base domain date ders tree = (.ok paths, tree')) :
    paths = (List.range ders.length).map fun number =>
      Path.join (directoryFor base domain date) (fileName (Store.label domain date) number) := by
  rcases save_cases saved with ⟨_, _, failed⟩ | ⟨middle, _, saved⟩
  · cases failed
  · rw [saveFrom_paths saved, List.range_eq_range']

/-- After a saving that succeeds there is a path for each certificate, no two paths are the
same, and the file of each path holds the certificate. -/
theorem save_eq_ok {base : RawText} {domain : String} {date : Date}
    (saved : save FileTree.disk base domain date ders tree = (.ok paths, tree')) :
    paths.Nodup ∧
      List.Forall₂ (fun path der => tree'.readFile? path = some (certificateFile der)) paths
        ders := by
  refine ⟨?_, ?_⟩
  · rw [save_paths saved]
    refine List.Nodup.map ?_ List.nodup_range
    intro number other same
    simp only [join_fileName] at same
    exact numbered_injective same
  · rcases save_cases saved with ⟨_, _, failed⟩ | ⟨middle, _, saved⟩
    · cases failed
    · exact saveFrom_readFile? saved

end CertificateAudit.Store
