import CertificateAudit.Proofs.Store.Containment

/-!
Saving again. Savings for the same domain and date share a directory: each overwrites the files
of its own numbers and none removes a file. So a file holds the certificate of the last list that
had one of its number (`latest`), also if later lists were shorter: `results_after_savings`.
-/

namespace CertificateAudit.Store

open CertificateAudit.Calendar CertificateAudit.Text

/-- The certificate of a number in the last list that has one. -/
def latest (lists : List (List (List UInt8))) (index : Nat) : Option (List UInt8) :=
  lists.reverse.findSome? fun ders => ders[index]?

theorem latest_concat (lists : List (List (List UInt8))) (ders : List (List UInt8))
    (index : Nat) : latest (lists ++ [ders]) index = ders[index]?.or (latest lists index) := by
  rw [latest, List.reverse_concat, List.findSome?_cons]
  cases ders[index]? <;> rfl

theorem isSome_latest_iff {lists : List (List (List UInt8))} {index : Nat} :
    (latest lists index).isSome = true ↔ ∃ ders ∈ lists, index < ders.length := by
  rw [latest, List.findSome?_isSome_iff]
  simp

/-- Savings for the same domain and date, all of which succeed, from one tree to another. -/
inductive Savings (base : RawText) (domain : String) (date : Date) :
    FileTree → List (List (List UInt8)) → FileTree → Prop where
  | start {tree} : Savings base domain date tree [] tree
  | again {first tree tree' lists ders paths} :
      Savings base domain date first lists tree →
      save FileTree.disk base domain date ders tree = (.ok paths, tree') →
      Savings base domain date first (lists ++ [ders]) tree'

/-- Whatever is in the tree is in a directory of the tree. -/
def FileTree.IsRooted (tree : FileTree) : Prop :=
  ∀ place name, tree.lookup (place ++ [name]) ≠ none → tree.lookup place = some .directory

theorem FileTree.IsRooted.lookup_append {tree : FileTree} (rooted : tree.IsRooted)
    {place : Place} (absent : tree.lookup place = none) (rest : List RawText) :
    tree.lookup (place ++ rest) = none := by
  induction rest using List.reverseRecOn with
  | nil =>
      rw [List.append_nil]
      exact absent
  | append_singleton rest name inductionHypothesis =>
      by_contra present
      rw [← List.append_assoc] at present
      cases inductionHypothesis.symm.trans (rooted _ _ present)

/-- What the directory of the results holds after savings of the lists. -/
structure Results (base : RawText) (domain : String) (date : Date)
    (lists : List (List (List UInt8))) (tree : FileTree) : Prop where
  directory : lists ≠ [] →
    tree.lookup (tree.target (directoryFor base domain date)) = some .directory
  /-- Its files are those of the numbers that any list has. -/
  files : ∀ rest content, rest ≠ [] →
    (tree.lookup (tree.target (directoryFor base domain date) ++ rest) = some (.file content) ↔
      ∃ index der, latest lists index = some der ∧
        rest = [RawText.ofText (fileName (label domain date) index)] ∧
        content = certificateFile der)
  /-- It has other directories in it only if the output directory is reached through them. -/
  others : ∀ rest, rest ≠ [] →
    tree.lookup (tree.target (directoryFor base domain date) ++ rest) = some .directory →
    ∃ front, front <+: Path.names base ∧
      tree.target (directoryFor base domain date) ++ rest = Place.walk (tree.start base) front

variable {base : RawText} {domain : String} {date : Date} {lists : List (List (List UInt8))}
  {ders : List (List UInt8)} {paths : List RawText} {tree tree' : FileTree}

theorem results_of_absent (rooted : tree.IsRooted)
    (absent : tree.lookup (tree.target (directoryFor base domain date)) = none) :
    Results base domain date [] tree := by
  refine ⟨fun some => absurd rfl some, ?_, ?_⟩
  · intro rest content below
    rw [rooted.lookup_append absent]
    constructor
    · nofun
    · rintro ⟨index, der, isLatest, _⟩
      cases isLatest
  · intro rest below present
    cases (rooted.lookup_append absent rest).symm.trans present

theorem Results.again (before : Results base domain date lists tree)
    (noSlash : '/' ∉ domain.toList)
    (saved : save FileTree.disk base domain date ders tree = (.ok paths, tree')) :
    Results base domain date (lists ++ [ders]) tree' := by
  have leads := leadsInto_label noSlash date
  have kept := save_keepsDirectories saved
  refine ⟨?_, ?_, ?_⟩
  · intro _
    rw [kept.target_eq]
    exact save_directory saved
  · intro rest content below
    rw [kept.target_eq, leads.save_lookup_file_iff saved, before.files rest content below]
    simp only [← ofText_fileName]
    constructor
    · rintro (⟨index, der, isDer, isRest, isContent⟩ |
        ⟨⟨index, der, isLatest, isRest, isContent⟩, distinct⟩)
      · refine ⟨index, der, ?_, isRest, isContent⟩
        rw [latest_concat, isDer]
        rfl
      · have short : ders.length ≤ index := by
          by_contra bound
          exact distinct index (Nat.lt_of_not_le bound) isRest
        refine ⟨index, der, ?_, isRest, isContent⟩
        rw [latest_concat, List.getElem?_eq_none short]
        exact isLatest
    · rintro ⟨index, der, isLatest, isRest, isContent⟩
      rw [latest_concat, Option.or_eq_some_iff] at isLatest
      rcases isLatest with isDer | ⟨missing, isLatest⟩
      · exact .inl ⟨index, der, isDer, isRest, isContent⟩
      · refine .inr ⟨⟨index, der, isLatest, isRest, isContent⟩, ?_⟩
        intro other bound sameRest
        have sameName := List.singleton_inj.mp (isRest.symm.trans sameRest)
        rw [fileName_injective sameName] at missing
        exact absurd (List.getElem?_eq_none_iff.mp missing) (Nat.not_le_of_lt bound)
  · intro rest below present
    rw [kept.target_eq] at present ⊢
    rw [kept.start_eq]
    rcases leads.save_lookup_eq_or saved
      (tree.target (directoryFor base domain date) ++ rest) with
      unchanged | ⟨_, _, front, along, reached⟩ | ⟨_, _, _, _, isFile⟩
    · exact before.others rest below (unchanged.symm.trans present)
    · -- The last name on the way is that of the directory itself.
      have single := Path.names_ofText (slash_not_mem_label noSlash date)
        (one_lt_length_label domain date)
      rw [single, List.prefix_concat_iff] at along
      rcases along with rfl | along
      · rw [← single, Place.walk_append, leads.walk_label, leads.target_directoryFor] at reached
        exact absurd (List.append_right_eq_self.mp reached) below
      · exact ⟨front, along, reached⟩
    · cases present.symm.trans isFile

/-- There is a file of each number below the length of the longest list. -/
theorem Results.exists_file_iff (results : Results base domain date lists tree) (index : Nat) :
    (∃ content, tree.lookup (tree.target (directoryFor base domain date) ++
      [RawText.ofText (fileName (label domain date) index)]) = some (.file content)) ↔
      ∃ ders ∈ lists, index < ders.length := by
  have named : [RawText.ofText (fileName (label domain date) index)] ≠ [] := List.cons_ne_nil _ _
  rw [← isSome_latest_iff, Option.isSome_iff_exists]
  constructor
  · rintro ⟨content, present⟩
    obtain ⟨other, der, isLatest, sameName, _⟩ := (results.files _ content named).mp present
    rw [fileName_injective (List.singleton_inj.mp sameName)]
    exact ⟨der, isLatest⟩
  · rintro ⟨der, isLatest⟩
    exact ⟨_, (results.files _ _ named).mpr ⟨index, der, isLatest, rfl, rfl⟩⟩

/-- After savings of the lists, of which each succeeded, into a directory that was not there, the
directory holds a file for each number below the length of the longest list, and in it the
certificate of the last list that has one of that number. -/
theorem results_after_savings (noSlash : '/' ∉ domain.toList) (rooted : tree.IsRooted)
    (absent : tree.lookup (tree.target (directoryFor base domain date)) = none)
    (savings : Savings base domain date tree lists tree') :
    Results base domain date lists tree' ∧
    ∀ index, (∃ content, tree'.lookup (tree'.target (directoryFor base domain date) ++
      [RawText.ofText (fileName (label domain date) index)]) = some (.file content)) ↔
      ∃ ders ∈ lists, index < ders.length := by
  have results : Results base domain date lists tree' := by
    induction savings with
    | start => exact results_of_absent rooted absent
    | again _ saved inductionHypothesis => exact inductionHypothesis.again noSlash saved
  exact ⟨results, results.exists_file_iff⟩

def savedTree : FileTree :=
  (save FileTree.disk "out" "a" sampleDay [[1], [2]] {}).2

def rerunTree : FileTree :=
  (save FileTree.disk "out" "a" sampleDay [[3]] savedTree).2

theorem savedTree_saved :
    save FileTree.disk "out" "a" sampleDay [[1], [2]] {} =
      (.ok ["out/a_2024-08-30/a_2024-08-30_0.pem", "out/a_2024-08-30/a_2024-08-30_1.pem"],
        savedTree) := by
  have paths : (save FileTree.disk "out" "a" sampleDay [[1], [2]] {}).1 =
      .ok ["out/a_2024-08-30/a_2024-08-30_0.pem", "out/a_2024-08-30/a_2024-08-30_1.pem"] := by
    decide +kernel
  exact Prod.ext paths (by rw [savedTree])

theorem rerunTree_saved :
    save FileTree.disk "out" "a" sampleDay [[3]] savedTree =
      (.ok ["out/a_2024-08-30/a_2024-08-30_0.pem"], rerunTree) := by
  have paths : (save FileTree.disk "out" "a" sampleDay [[3]] savedTree).1 =
      .ok ["out/a_2024-08-30/a_2024-08-30_0.pem"] := by
    decide +kernel
  exact Prod.ext paths (by rw [rerunTree])

theorem savings_rerunTree :
    Savings "out" "a" sampleDay {} [[[1], [2]], [[3]]] rerunTree := by
  have first : Savings "out" "a" sampleDay {} [[[1], [2]]] savedTree :=
    .again .start savedTree_saved
  exact .again first rerunTree_saved

theorem results_after_savings_rerun :
    Savings "out" "a" sampleDay {} [[[1], [2]], [[3]]] rerunTree ∧
      rerunTree.lookup ["out", "a_2024-08-30", "a_2024-08-30_0.pem"] =
        some (.file (certificateFile [3])) ∧
      rerunTree.lookup ["out", "a_2024-08-30", "a_2024-08-30_1.pem"] =
        some (.file (certificateFile [2])) := by
  have rooted : ({} : FileTree).IsRooted := by
    intro place name present
    simp [FileTree.lookup] at present
  have directory : rerunTree.target (directoryFor "out" "a" sampleDay) =
      [RawText.ofText "out", RawText.ofText "a_2024-08-30"] := by
    decide +kernel
  have names : fileName (label "a" sampleDay) 0 = "a_2024-08-30_0.pem" ∧
      fileName (label "a" sampleDay) 1 = "a_2024-08-30_1.pem" := by
    decide +kernel
  have results :=
    (results_after_savings (by decide) rooted (by decide +kernel) savings_rerunTree).1
  have files := results.files
  rw [directory] at files
  refine ⟨savings_rerunTree, ?_, ?_⟩
  · exact (files ["a_2024-08-30_0.pem"] _ (List.cons_ne_nil _ _)).mpr
      ⟨0, [3], rfl, by rw [names.1], rfl⟩
  · exact (files ["a_2024-08-30_1.pem"] _ (List.cons_ne_nil _ _)).mpr
      ⟨1, [2], rfl, by rw [names.2], rfl⟩

/-- Not every file is one of the last list. -/
theorem rerunTree_leftover :
    Savings "out" "a" sampleDay {} [[[1], [2]], [[3]]] rerunTree ∧
    ¬ ∀ rest content, rest ≠ [] →
      (rerunTree.lookup (rerunTree.target (directoryFor "out" "a" sampleDay) ++ rest) =
        some (.file content) ↔
      ∃ index der, [[3]][index]? = some der ∧
        rest = [RawText.ofText (fileName (label "a" sampleDay) index)] ∧
        content = certificateFile der) := by
  refine ⟨savings_rerunTree, ?_⟩
  intro exact
  have leftover : rerunTree.lookup (rerunTree.target (directoryFor "out" "a" sampleDay) ++
      [RawText.ofText (fileName (label "a" sampleDay) 1)]) =
        some (.file (certificateFile [2])) := by
    decide +kernel
  obtain ⟨index, der, isDer, sameName, _⟩ := (exact _ _ (List.cons_ne_nil _ _)).mp leftover
  cases fileName_injective (List.singleton_inj.mp sameName)
  cases isDer

end CertificateAudit.Store
