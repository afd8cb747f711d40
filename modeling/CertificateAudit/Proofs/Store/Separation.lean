import CertificateAudit.Proofs.Calendar.Text
import CertificateAudit.Proofs.Store.Effect
import CertificateAudit.Proofs.Store.Reruns
import CertificateAudit.Proofs.Store.Way

/-!
Savings for different domains or dates do not meet. A label gives its domain and date back, as the
date is all that follows the last underscore (`label_injective`), so the directories differ. What
a saving needs and what it leaves is known place by place (`save_succeeds_iff`, `save_lookup`);
neither is touched by a saving in another directory, so the order of two savings does not
matter: `savings_apart`.
-/

namespace CertificateAudit.Store

open CertificateAudit.Calendar CertificateAudit.Text

/-- The label gives its domain and date back. -/
theorem label_injective {domain other : String} {date day : Date}
    (same : label domain date = label other day) : domain = other ∧ date = day := by
  have written (domain : String) (date : Date) :
      (label domain date).toList = domain.toList ++ '_' :: date.chars := by
    simp [label, Date.text]
  have noUnderscore (date : Date) : '_' ∉ date.chars :=
    not_mem_chars (by decide) (by decide) (by decide) date
  have same := congrArg String.toList same
  rw [written, written] at same
  obtain ⟨sameDomain, sameDay⟩ :=
    append_cons_inj_of_not_mem (noUnderscore date) (noUnderscore day) same
  refine ⟨String.toList_inj.mp sameDomain, Date.text_injective ?_⟩
  rw [Date.text, Date.text, sameDay]

variable {base : RawText} {domain other : String} {date day : Date}
  {ders others : List (List UInt8)} {paths otherPaths : List RawText}
  {tree tree' : FileTree} {index : Nat}

/-- What differs after a saving that succeeds is known at every place. -/
theorem save_lookup (saved : save FileTree.disk base domain date ders tree = (.ok paths, tree'))
    (place : Place) :
    (∃ index der, ders[index]? = some der ∧
      place = tree.target (filePath base domain date index) ∧
      tree'.lookup place = some (.file (certificateFile der))) ∨
    (∀ index < ders.length, place ≠ tree.target (filePath base domain date index)) ∧
      tree'.lookup place =
        if place ∈ tree.wayTo (directoryFor base domain date) then some .directory
        else tree.lookup place := by
  rcases save_cases saved with ⟨_, _, failed⟩ | ⟨middle, made, behind⟩
  · cases failed
  · by_cases own : ∃ index < ders.length, place = tree.target (filePath base domain date index)
    · obtain ⟨index, bound, isOwn⟩ := own
      have isDer := List.getElem?_eq_getElem bound
      have held := saveFrom_holds behind isDer
      rw [Nat.zero_add] at held
      obtain ⟨reached, leads, present⟩ := FileTree.exists_leadsTo_of_readFile? held
      have isReached := leads.eq_target
      rw [(save_keepsDirectories saved).target_eq] at isReached
      rw [isReached, ← filePath, ← isOwn] at present
      exact .inl ⟨index, _, isDer, isOwn, present⟩
    · have foreign : ∀ index < ders.length,
          place ≠ tree.target (filePath base domain date index) :=
        fun index bound same => own ⟨index, bound, same⟩
      refine .inr ⟨foreign, ?_⟩
      rw [← FileTree.createDirectories_lookup made]
      rcases saveFrom_lookup_eq_or behind place with same | ⟨index, _, isDer, isPlace, _⟩
      · exact same
      · have kept := (FileTree.createDirectories_growsAlong made).1.keepsDirectories
        rw [Nat.zero_add, kept.target_eq] at isPlace
        exact absurd isPlace (foreign index (List.getElem?_eq_some_iff.mp isDer).1)

theorem save_directory_of_mem_wayTo
    (saved : save FileTree.disk base domain date ders tree = (.ok paths, tree')) {place : Place}
    (onTheWay : place ∈ tree.wayTo (directoryFor base domain date)) :
    tree'.lookup place = some .directory := by
  rcases save_cases saved with ⟨_, _, failed⟩ | ⟨middle, made, behind⟩
  · cases failed
  · apply (saveFrom_keepsDirectories behind).directory
    rw [FileTree.createDirectories_lookup made, if_pos onTheWay]

/-- The place is that of a file of the saving or on the way to its directory. -/
def Touches (base : RawText) (domain : String) (date : Date) (count : Nat) (tree : FileTree)
    (place : Place) : Prop :=
  place ∈ tree.wayTo (directoryFor base domain date) ∨
    ∃ index < count, place = tree.target (filePath base domain date index)

theorem FileTree.KeepsDirectories.touches_iff (kept : tree.KeepsDirectories tree') {count : Nat}
    {place : Place} :
    Touches base domain date count tree' place ↔ Touches base domain date count tree place := by
  simp only [Touches, kept.wayTo_eq, kept.target_eq]

theorem save_lookup_of_not_touches
    (saved : save FileTree.disk base domain date ders tree = (.ok paths, tree')) {place : Place}
    (aside : ¬ Touches base domain date ders.length tree place) :
    tree'.lookup place = tree.lookup place := by
  obtain ⟨offTheWay, foreign⟩ := not_or.mp aside
  rcases save_lookup saved place with ⟨index, _, isDer, isPlace, _⟩ | ⟨_, stands⟩
  · exact absurd ⟨index, (List.getElem?_eq_some_iff.mp isDer).1, isPlace⟩ foreign
  · rw [stands, if_neg offTheWay]

/-- What stands somewhere after a saving depends only on what stood there before. -/
theorem save_lookup_congr {second second' : FileTree} {place : Place}
    (saved : save FileTree.disk base domain date ders tree = (.ok paths, tree'))
    (again : save FileTree.disk base domain date ders second = (.ok otherPaths, second'))
    (sameStart : second.workingDirectory = tree.workingDirectory)
    (same : second.lookup place = tree.lookup place) :
    second'.lookup place = tree'.lookup place := by
  have start (path : RawText) : second.start path = tree.start path := by
    rw [FileTree.start, sameStart, FileTree.start]
  have target (path : RawText) : second.target path = tree.target path := by
    rw [FileTree.target, start, FileTree.target]
  have wayTo (path : RawText) : second.wayTo path = tree.wayTo path := by
    rw [FileTree.wayTo, start, FileTree.wayTo]
  rcases save_lookup saved place with ⟨index, der, isDer, isPlace, present⟩ | ⟨foreign, stands⟩ <;>
    rcases save_lookup again place with
      ⟨next, other, isOther, isNext, otherPresent⟩ | ⟨otherForeign, otherStands⟩
  · rw [target, isPlace] at isNext
    obtain rfl := target_fileName_injective isNext
    rw [present, otherPresent, Option.some.inj (isDer.symm.trans isOther)]
  · rw [← target] at isPlace
    exact absurd isPlace (otherForeign index (List.getElem?_eq_some_iff.mp isDer).1)
  · rw [target] at isNext
    exact absurd isNext (foreign next (List.getElem?_eq_some_iff.mp isOther).1)
  · rw [stands, otherStands, wayTo, same]

/-- The file with a number can be written once its directory is there. -/
@[mk_iff]
structure IsWritable (base : RawText) (domain : String) (date : Date) (tree : FileTree)
    (index : Nat) : Prop where
  usable : FileTree.pathFailure? (filePath base domain date index) = none
  short : FileTree.isLongName (fileName (label domain date) index) = false
  noDirectory : tree.lookup (tree.target (filePath base domain date index)) ≠ some .directory

theorem isWritable_put_iff {next : Nat} (differs : next ≠ index) (content : List UInt8) :
    IsWritable base domain date
        (tree.put (tree.target (filePath base domain date index)) (.file content)) next ↔
      IsWritable base domain date tree next := by
  have elsewhere : tree.target (filePath base domain date next) ≠
      tree.target (filePath base domain date index) :=
    fun same => differs (target_fileName_injective same)
  have sameTarget : (tree.put (tree.target (filePath base domain date index))
      (.file content)).target (filePath base domain date next) =
      tree.target (filePath base domain date next) := rfl
  rw [isWritable_iff, isWritable_iff, sameTarget, FileTree.lookup_put_of_ne elsewhere]

/-- Once the directory has been made, those files can be written that could be before and are not
on the way to it. -/
theorem isWritable_made_iff
    (made : tree.createDirectories (directoryFor base domain date) = (.ok (), tree')) :
    IsWritable base domain date tree' index ↔
      IsWritable base domain date tree index ∧
      tree.target (filePath base domain date index) ∉
        tree.wayTo (directoryFor base domain date) := by
  have kept := (FileTree.createDirectories_growsAlong made).1.keepsDirectories
  have stands := FileTree.createDirectories_lookup made
    (tree.target (filePath base domain date index))
  constructor
  · rintro ⟨usable, short, noDirectory⟩
    rw [kept.target_eq, stands, Ne, ite_eq_left_iff, Classical.not_imp] at noDirectory
    obtain ⟨aside, noDirectory⟩ := noDirectory
    exact ⟨⟨usable, short, noDirectory⟩, aside⟩
  · rintro ⟨⟨usable, short, noDirectory⟩, aside⟩
    refine ⟨usable, short, ?_⟩
    rw [kept.target_eq, stands, if_neg aside]
    exact noDirectory

/-- Nothing in the tree is in the way of saving so many certificates. -/
@[mk_iff]
structure IsFree (base : RawText) (domain : String) (date : Date) (count : Nat) (tree : FileTree) :
    Prop where
  usable : FileTree.pathFailure? (directoryFor base domain date) = none
  isOpen : tree.IsOpen (tree.start (directoryFor base domain date))
    (Path.names (directoryFor base domain date))
  files : ∀ index < count, IsWritable base domain date tree index ∧
    tree.target (filePath base domain date index) ∉ tree.wayTo (directoryFor base domain date)

section NoSlash

variable (noSlash : '/' ∉ domain.toList)
include noSlash

theorem target_filePath (tree : FileTree) (base : RawText) (date : Date) (index : Nat) :
    tree.target (filePath base domain date index) =
      tree.target base ++ [RawText.ofText (label domain date),
        RawText.ofText (fileName (label domain date) index)] := by
  have leads := leadsInto_label noSlash date
  rw [filePath, leads.target_fileName, leads.target_directoryFor, List.append_assoc,
    ← ofText_fileName]
  rfl

theorem wayTo_directoryFor (tree : FileTree) (base : RawText) (date : Date) :
    tree.wayTo (directoryFor base domain date) =
      tree.wayTo base ++ [tree.target base ++ [RawText.ofText (label domain date)]] := by
  have relative := (leadsInto_label noSlash date).relative
  have names := Path.names_ofText (slash_not_mem_label noSlash date)
    (one_lt_length_label domain date)
  rw [FileTree.wayTo, directoryFor, Path.names_join relative, names, FileTree.start,
    Path.isAbsolute_join relative, Place.way_concat _ _ (label_ne_up domain date)]
  rfl

/-- A file can be written just if it is writable, and then it is all that is written. -/
theorem writeFile_filePath_iff {there : Place} {content : List UInt8}
    (reached : tree.descend (tree.start (directoryFor base domain date))
      (Path.names (directoryFor base domain date)) = .ok there) :
    tree.writeFile (filePath base domain date index) content = (.ok (), tree') ↔
      IsWritable base domain date tree index ∧
      tree' = tree.put (tree.target (filePath base domain date index)) (.file content) := by
  have noSlashFile := slash_not_mem_fileName (slash_not_mem_label noSlash date) index
  have relative := Path.isAbsolute_ofText noSlashFile
  have names : Path.names (filePath base domain date index) =
      Path.names (directoryFor base domain date) ++
        [RawText.ofText (fileName (label domain date) index)] := by
    rw [filePath, Path.names_join relative, Path.names_ofText noSlashFile
      (one_lt_length_fileName _ index)]
  have start : tree.start (filePath base domain date index) =
      tree.start (directoryFor base domain date) := by
    rw [filePath, FileTree.start, Path.isAbsolute_join relative, ← FileTree.start]
  rw [FileTree.writeFile_eq_ok_iff]
  constructor
  · rintro ⟨place, leads, noDirectory, rfl⟩
    have isPlace := leads.eq_target
    rw [isPlace] at noDirectory ⊢
    obtain ⟨usable, name, _, last, _, short, _, _⟩ := leads
    rw [names, List.getLast?_concat] at last
    cases last
    exact ⟨⟨usable, short, noDirectory⟩, rfl⟩
  · rintro ⟨⟨usable, short, noDirectory⟩, rfl⟩
    refine ⟨_, ⟨usable, _, there, ?_, fileName_ne_up _ index, short, ?_, ?_⟩, noDirectory, rfl⟩
    · rw [names, List.getLast?_concat]
    · rw [names, List.dropLast_concat, start]
      exact reached
    · rw [FileTree.target, names, Place.walk_concat _ _ (fileName_ne_up _ index), start,
        ← FileTree.eq_walk_of_descend reached]

theorem saveFrom_succeeds_iff {there : Place}
    (reached : tree.descend (tree.start (directoryFor base domain date))
      (Path.names (directoryFor base domain date)) = .ok there) :
    (∃ paths tree', saveFrom FileTree.disk (directoryFor base domain date) (label domain date)
      index ders tree = (.ok paths, tree')) ↔
      ∀ offset < ders.length, IsWritable base domain date tree (index + offset) := by
  induction ders generalizing index tree with
  | nil =>
      constructor
      · intro _ offset absent
        cases absent
      · intro _
        exact ⟨[], tree, rfl⟩
  | cons der ders inductionHypothesis =>
      -- Writing the first file leaves the places of the others alone.
      have later (writable : IsWritable base domain date tree index) :
          (∃ paths tree', saveFrom FileTree.disk (directoryFor base domain date)
            (label domain date) (index + 1) ders
            (tree.put (tree.target (filePath base domain date index))
              (.file (certificateFile der))) = (.ok paths, tree')) ↔
            ∀ offset < ders.length, IsWritable base domain date tree (index + (offset + 1)) := by
        have kept := FileTree.KeepsDirectories.put_file writable.noDirectory (certificateFile der)
        have reached := kept.descend_eq_ok reached
        rw [← kept.start_eq] at reached
        rw [inductionHypothesis reached]
        refine forall₂_congr fun offset _ => ?_
        rw [isWritable_put_iff (by omega), Nat.add_assoc, Nat.add_comm 1]
      rw [List.length_cons, Nat.forall_lt_succ_left]
      constructor
      · rintro ⟨paths, tree', saved⟩
        obtain ⟨middle, rest, written, behind, _⟩ := saveFrom_cons_eq_ok saved
        obtain ⟨writable, rfl⟩ := (writeFile_filePath_iff noSlash reached).mp written
        exact ⟨writable, (later writable).mp ⟨rest, tree', behind⟩⟩
      · rintro ⟨writable, others⟩
        have written : tree.writeFile (filePath base domain date index) (certificateFile der) =
            (.ok (), _) :=
          (writeFile_filePath_iff noSlash reached).mpr ⟨writable, rfl⟩
        obtain ⟨rest, tree', behind⟩ := (later writable).mpr others
        exact ⟨_, tree', saveFrom_of_writeFile written behind⟩

/-- A saving succeeds just if nothing is in its way, and its paths do not depend on the tree. -/
theorem save_succeeds_iff :
    (∃ tree', save FileTree.disk base domain date ders tree = (.ok paths, tree')) ↔
      IsFree base domain date ders.length tree ∧
      paths = (List.range ders.length).map (filePath base domain date) := by
  have written {middle : FileTree}
      (made : tree.createDirectories (directoryFor base domain date) = (.ok (), middle)) :
      (∃ paths tree', saveFrom FileTree.disk (directoryFor base domain date) (label domain date)
        0 ders middle = (.ok paths, tree')) ↔
        ∀ index < ders.length, IsWritable base domain date tree index ∧
          tree.target (filePath base domain date index) ∉
            tree.wayTo (directoryFor base domain date) := by
    obtain ⟨grows, reached⟩ := FileTree.createDirectories_growsAlong made
    have reached := reached rfl
    rw [← grows.keepsDirectories.start_eq] at reached
    rw [saveFrom_succeeds_iff noSlash reached]
    refine forall₂_congr fun index _ => ?_
    rw [Nat.zero_add, isWritable_made_iff made]
  constructor
  · rintro ⟨tree', saved⟩
    refine ⟨?_, save_paths saved⟩
    rcases save_cases saved with ⟨_, _, failed⟩ | ⟨middle, made, behind⟩
    · cases failed
    · obtain ⟨usable, isOpen⟩ := FileTree.createDirectories_succeeds_iff.mp ⟨middle, made⟩
      exact ⟨usable, isOpen, (written made).mp ⟨paths, tree', behind⟩⟩
  · rintro ⟨⟨usable, isOpen, files⟩, rfl⟩
    obtain ⟨middle, made⟩ := FileTree.createDirectories_succeeds_iff.mpr ⟨usable, isOpen⟩
    obtain ⟨paths, tree', behind⟩ := (written made).mpr files
    have saved := save_of_createDirectories made behind
    rw [save_paths saved] at saved
    exact ⟨tree', saved⟩

end NoSlash

section Apart

variable (noSlash : '/' ∉ domain.toList) (otherNoSlash : '/' ∉ other.toList)
  (differ : label domain date ≠ label other day)
include noSlash otherNoSlash differ

theorem target_filePath_ne (tree : FileTree) (base : RawText) (index next : Nat) :
    tree.target (filePath base domain date index) ≠ tree.target (filePath base other day next) := by
  rw [target_filePath noSlash, target_filePath otherNoSlash]
  intro same
  exact differ (RawText.ofText_inj.mp (List.cons.inj (List.append_cancel_left same)).1)

omit differ in
/-- Only the way of the output directory, which is the same for both, may lead through a file. -/
theorem target_not_mem_wayTo
    (aside : tree.target (filePath base other day index) ∉
      tree.wayTo (directoryFor base other day)) :
    tree.target (filePath base other day index) ∉ tree.wayTo (directoryFor base domain date) := by
  rw [target_filePath otherNoSlash] at aside ⊢
  rw [wayTo_directoryFor otherNoSlash, List.mem_append, not_or] at aside
  rw [wayTo_directoryFor noSlash, List.mem_append, not_or, List.mem_singleton]
  refine ⟨aside.1, ?_⟩
  intro same
  have lengths := congrArg List.length same
  simp at lengths

/-- A saving in another directory is neither in the way of a saving nor makes way for it. -/
theorem isFree_after_iff {count : Nat}
    (saved : save FileTree.disk base domain date ders tree = (.ok paths, tree')) :
    IsFree base other day count tree' ↔ IsFree base other day count tree := by
  have own := ((save_succeeds_iff noSlash).mp ⟨tree', saved⟩).1
  have kept := save_keepsDirectories saved
  have sameFiles : ∀ place ∈ tree.wayTo (directoryFor base other day), ∀ content,
      tree'.lookup place = some (.file content) ↔ tree.lookup place = some (.file content) := by
    intro place onTheWay content
    rcases save_lookup saved place with ⟨index, _, isDer, isPlace, _⟩ | ⟨_, stands⟩
    · have bound := (List.getElem?_eq_some_iff.mp isDer).1
      rw [isPlace] at onTheWay
      exact absurd onTheWay (target_not_mem_wayTo otherNoSlash noSlash (own.files index bound).2)
    · rw [stands]
      split
      case isTrue onOwnWay =>
        constructor
        · nofun
        · intro present
          exact absurd present (own.isOpen.noFile place onOwnWay content)
      case isFalse => rfl
  have sameNode {index : Nat} (aside : tree.target (filePath base other day index) ∉
      tree.wayTo (directoryFor base other day)) :
      tree'.lookup (tree.target (filePath base other day index)) =
        tree.lookup (tree.target (filePath base other day index)) := by
    rcases save_lookup saved (tree.target (filePath base other day index)) with
      ⟨_, _, _, same, _⟩ | ⟨_, stands⟩
    · exact absurd same.symm (target_filePath_ne noSlash otherNoSlash differ tree base _ _)
    · rw [stands, if_neg (target_not_mem_wayTo noSlash otherNoSlash aside)]
  rw [isFree_iff, isFree_iff]
  refine and_congr_right fun _ => and_congr ?_ (forall₂_congr fun index _ => ?_)
  · rw [kept.start_eq, FileTree.isOpen_iff, FileTree.isOpen_iff]
    refine and_congr_right fun _ => forall₂_congr fun place onTheWay => ?_
    exact forall_congr' fun content => not_congr (sameFiles place onTheWay content)
  · rw [kept.wayTo_eq, kept.target_eq]
    refine and_congr_left fun aside => ?_
    rw [isWritable_iff, isWritable_iff, kept.target_eq, sameNode aside]

/-- Whether it succeeds or not, a saving makes, changes and removes no file in the directory of
another. -/
theorem save_lookup_file_apart {result : Except SaveError (List RawText)}
    (saved : save FileTree.disk base domain date ders tree = (result, tree'))
    (rest : List RawText) (content : List UInt8) :
    tree'.lookup (tree.target (directoryFor base other day) ++ rest) = some (.file content) ↔
      tree.lookup (tree.target (directoryFor base other day) ++ rest) =
        some (.file content) := by
  have leads := leadsInto_label noSlash date
  rcases leads.save_lookup_eq_or saved (tree.target (directoryFor base other day) ++ rest) with
    same | ⟨absent, present, _⟩ | ⟨index, _, _, isPlace, _⟩
  · rw [same]
  · rw [absent, present]
    constructor <;> nofun
  · rw [leads.target_directoryFor, (leadsInto_label otherNoSlash day).target_directoryFor,
      List.append_assoc, List.append_assoc] at isPlace
    have sameLabel := (List.cons.inj (List.append_cancel_left isPlace)).1
    exact absurd (RawText.ofText_inj.mp sameLabel).symm differ

/-- Both savings touch only directories that both need. -/
theorem mem_wayTo_of_touches {count otherCount : Nat} {place : Place}
    (free : IsFree base domain date count tree) (otherFree : IsFree base other day otherCount tree)
    (touched : Touches base domain date count tree place)
    (otherTouched : Touches base other day otherCount tree place) :
    place ∈ tree.wayTo (directoryFor base domain date) ∧
      place ∈ tree.wayTo (directoryFor base other day) := by
  rcases touched with onTheWay | ⟨index, bound, isPlace⟩
  · rcases otherTouched with onOtherWay | ⟨next, bound, isPlace⟩
    · exact ⟨onTheWay, onOtherWay⟩
    · have aside := (otherFree.files next bound).2
      rw [isPlace] at onTheWay
      exact absurd onTheWay (target_not_mem_wayTo noSlash otherNoSlash aside)
  · rw [isPlace] at otherTouched
    rcases otherTouched with onOtherWay | ⟨next, _, same⟩
    · have aside := (free.files index bound).2
      exact absurd onOtherWay (target_not_mem_wayTo otherNoSlash noSlash aside)
    · exact absurd same (target_filePath_ne noSlash otherNoSlash differ tree base index next)

/-- Two savings in either order leave the same everywhere. -/
theorem saves_lookup {after otherAfter both both' : FileTree}
    (first : save FileTree.disk base domain date ders tree = (.ok paths, after))
    (next : save FileTree.disk base other day others after = (.ok otherPaths, both))
    (otherFirst : save FileTree.disk base other day others tree = (.ok otherPaths, otherAfter))
    (otherNext : save FileTree.disk base domain date ders otherAfter = (.ok paths, both'))
    (place : Place) : both'.lookup place = both.lookup place := by
  have kept := save_keepsDirectories first
  have otherKept := save_keepsDirectories otherFirst
  by_cases touched : Touches base domain date ders.length tree place
  · by_cases otherTouched : Touches base other day others.length tree place
    · have free := ((save_succeeds_iff noSlash).mp ⟨after, first⟩).1
      have otherFree := ((save_succeeds_iff otherNoSlash).mp ⟨otherAfter, otherFirst⟩).1
      obtain ⟨onTheWay, onOtherWay⟩ :=
        mem_wayTo_of_touches noSlash otherNoSlash differ free otherFree touched otherTouched
      rw [← otherKept.wayTo_eq] at onTheWay
      rw [← kept.wayTo_eq] at onOtherWay
      rw [save_directory_of_mem_wayTo next onOtherWay,
        save_directory_of_mem_wayTo otherNext onTheWay]
    · have unchanged := save_lookup_of_not_touches otherFirst otherTouched
      rw [save_lookup_of_not_touches next (mt kept.touches_iff.mp otherTouched)]
      exact save_lookup_congr first otherNext otherKept.workingDirectory_eq unchanged
  · have unchanged := save_lookup_of_not_touches first touched
    rw [save_lookup_of_not_touches otherNext (mt otherKept.touches_iff.mp touched)]
    exact (save_lookup_congr otherFirst next kept.workingDirectory_eq unchanged).symm

end Apart

/-- The same stands everywhere in both trees. -/
structure FileTree.Alike (tree tree' : FileTree) : Prop where
  workingDirectory_eq : tree'.workingDirectory = tree.workingDirectory
  lookup_eq : ∀ place, tree'.lookup place = tree.lookup place

/-- Labels of different domains or dates differ. So a saving for one of them, if the domains have
no slash, leaves the files in the directory of the other alone; whether the other saving succeeds
does not depend on it; and if both succeed, their order does not matter. -/
theorem savings_apart :
    (∀ (domain other : String) (date day : Date),
      label domain date = label other day → domain = other ∧ date = day) ∧
    ∀ (base : RawText) (domain other : String) (date day : Date) (tree : FileTree),
      '/' ∉ domain.toList → '/' ∉ other.toList → (domain, date) ≠ (other, day) →
      (∀ ders result tree', save FileTree.disk base domain date ders tree = (result, tree') →
        ∀ rest content,
          tree'.lookup (tree.target (directoryFor base other day) ++ rest) =
              some (.file content) ↔
            tree.lookup (tree.target (directoryFor base other day) ++ rest) =
              some (.file content)) ∧
      ∀ ders others paths otherPaths after,
        save FileTree.disk base domain date ders tree = (.ok paths, after) →
        ((∃ otherAfter,
            save FileTree.disk base other day others tree = (.ok otherPaths, otherAfter)) ↔
          ∃ both, save FileTree.disk base other day others after = (.ok otherPaths, both)) ∧
        ∀ both, save FileTree.disk base other day others after = (.ok otherPaths, both) →
          ∃ otherAfter both',
            save FileTree.disk base other day others tree = (.ok otherPaths, otherAfter) ∧
            save FileTree.disk base domain date ders otherAfter = (.ok paths, both') ∧
            both.Alike both' := by
  refine ⟨fun _ _ _ _ => label_injective, ?_⟩
  intro base domain other date day tree noSlash otherNoSlash distinct
  have differ : label domain date ≠ label other day := by
    intro same
    obtain ⟨rfl, rfl⟩ := label_injective same
    exact distinct rfl
  refine ⟨fun _ _ _ => save_lookup_file_apart noSlash otherNoSlash differ, ?_⟩
  intro ders others paths otherPaths after first
  have independent : (∃ otherAfter,
      save FileTree.disk base other day others tree = (.ok otherPaths, otherAfter)) ↔
      ∃ both, save FileTree.disk base other day others after = (.ok otherPaths, both) := by
    rw [save_succeeds_iff otherNoSlash, save_succeeds_iff otherNoSlash,
      isFree_after_iff noSlash otherNoSlash differ first]
  refine ⟨independent, ?_⟩
  intro both next
  obtain ⟨otherAfter, otherFirst⟩ := independent.mpr ⟨both, next⟩
  have again : ∃ both',
      save FileTree.disk base domain date ders otherAfter = (.ok paths, both') := by
    rw [save_succeeds_iff noSlash, isFree_after_iff otherNoSlash noSlash differ.symm otherFirst,
      ← save_succeeds_iff noSlash]
    exact ⟨after, first⟩
  obtain ⟨both', otherNext⟩ := again
  refine ⟨otherAfter, both', otherFirst, otherNext, ?_, ?_⟩
  · rw [(save_keepsDirectories otherNext).workingDirectory_eq,
      (save_keepsDirectories otherFirst).workingDirectory_eq,
      (save_keepsDirectories next).workingDirectory_eq,
      (save_keepsDirectories first).workingDirectory_eq]
  · exact saves_lookup noSlash otherNoSlash differ first next otherFirst otherNext

/-- The tree after a saving for a domain that reads like the label of the one before. -/
def nestedTree : FileTree :=
  (save FileTree.disk "out" "a_2024-08-30" sampleDay [[3]] savedTree).2

theorem nestedTree_saved :
    save FileTree.disk "out" "a_2024-08-30" sampleDay [[3]] savedTree =
      (.ok ["out/a_2024-08-30_2024-08-30/a_2024-08-30_2024-08-30_0.pem"], nestedTree) := by
  have paths : (save FileTree.disk "out" "a_2024-08-30" sampleDay [[3]] savedTree).1 =
      .ok ["out/a_2024-08-30_2024-08-30/a_2024-08-30_2024-08-30_0.pem"] := by
    decide +kernel
  exact Prod.ext paths (by rw [nestedTree])

theorem savings_apart_nestedTree :
    save FileTree.disk "out" "a" sampleDay [[1], [2]] {} =
        (.ok ["out/a_2024-08-30/a_2024-08-30_0.pem", "out/a_2024-08-30/a_2024-08-30_1.pem"],
          savedTree) ∧
      save FileTree.disk "out" "a_2024-08-30" sampleDay [[3]] savedTree =
        (.ok ["out/a_2024-08-30_2024-08-30/a_2024-08-30_2024-08-30_0.pem"], nestedTree) ∧
      (∀ rest content,
        nestedTree.lookup (savedTree.target (directoryFor "out" "a" sampleDay) ++ rest) =
            some (.file content) ↔
          savedTree.lookup (savedTree.target (directoryFor "out" "a" sampleDay) ++ rest) =
            some (.file content)) ∧
      ∃ otherAfter both',
        save FileTree.disk "out" "a_2024-08-30" sampleDay [[3]] {} =
          (.ok ["out/a_2024-08-30_2024-08-30/a_2024-08-30_2024-08-30_0.pem"], otherAfter) ∧
        save FileTree.disk "out" "a" sampleDay [[1], [2]] otherAfter =
          (.ok ["out/a_2024-08-30/a_2024-08-30_0.pem", "out/a_2024-08-30/a_2024-08-30_1.pem"],
            both') ∧
        nestedTree.Alike both' := by
  have distinct : ("a", sampleDay) ≠ ("a_2024-08-30", sampleDay) := by decide
  have forward := savings_apart.2 "out" "a" "a_2024-08-30" sampleDay sampleDay {} (by decide)
    (by decide) distinct
  have backward := savings_apart.2 "out" "a_2024-08-30" "a" sampleDay sampleDay savedTree
    (by decide) (by decide) distinct.symm
  exact ⟨savedTree_saved, nestedTree_saved, backward.1 _ _ _ nestedTree_saved,
    (forward.2 _ _ _ _ _ savedTree_saved).2 _ nestedTree_saved⟩

end CertificateAudit.Store
