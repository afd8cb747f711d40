import CertificateAudit.Proofs.Store.Directories
import CertificateAudit.Proofs.Store.Save

/-!
How far a saving can reach. The label of a saving is a path of its own, joined to the output
directory and once more to the result; if it leads from any directory to a place directly in that
directory and never out of it (`Path.IsShallow`), everything a saving changes is in the output
directory or leads to it: `Path.IsShallow.isContained`. A domain without a slash makes such a
label.
-/

namespace CertificateAudit.Store

open CertificateAudit.Calendar CertificateAudit.Text

namespace Path

/-- The depth below its start at which a walk ends, if it never leaves the start. -/
def depthAfter : (depth : Nat) → List RawText → Option Nat
  | depth, [] => some depth
  | depth, name :: names =>
      if name = Path.up then if depth = 0 then none else depthAfter (depth - 1) names
      else depthAfter (depth + 1) names

theorem depthAfter_append (depth : Nat) (front back : List RawText) :
    depthAfter depth (front ++ back) =
      (depthAfter depth front).bind fun reached => depthAfter reached back := by
  induction front generalizing depth with
  | nil => rfl
  | cons name front inductionHypothesis =>
      simp only [List.cons_append, depthAfter, inductionHypothesis]
      by_cases up : name = Path.up
      · by_cases atStart : depth = 0 <;> simp [up, atStart]
      · simp [up]

theorem exists_walk_eq {below : Place} {names : List RawText} {depth : Nat}
    (inside : depthAfter below.length names = some depth) (here : Place) :
    ∃ reached, Place.walk (here ++ below) names = here ++ reached ∧ reached.length = depth := by
  induction names generalizing below with
  | nil =>
      cases inside
      exact ⟨below, rfl, rfl⟩
  | cons name names inductionHypothesis =>
      by_cases up : name = Path.up
      · rw [depthAfter, if_pos up] at inside
        rw [Place.walk, if_pos up]
        rcases List.eq_nil_or_concat below with rfl | ⟨above, last, rfl⟩
        · cases inside
        · rw [List.concat_eq_append, ← List.append_assoc, List.dropLast_concat]
          apply inductionHypothesis
          simpa using inside
      · rw [depthAfter, if_neg up] at inside
        rw [Place.walk, if_neg up, List.append_assoc]
        apply inductionHypothesis
        simpa using inside

/-- The path leads from any directory to a place directly in it and never leaves it before. -/
def IsShallow (path : RawText) : Prop :=
  isAbsolute path = false ∧ depthAfter 0 (names path) = some 1

instance (path : RawText) : Decidable (IsShallow path) :=
  inferInstanceAs (Decidable (_ ∧ _))

theorem IsShallow.prefix_walk {path : RawText} (shallow : IsShallow path) {front : List RawText}
    (before : front <+: names path) (here : Place) : here <+: Place.walk here front := by
  obtain ⟨back, split⟩ := before
  have depth := shallow.2
  rw [← split, depthAfter_append, Option.bind_eq_some_iff] at depth
  obtain ⟨reached, inside, _⟩ := depth
  obtain ⟨below, walked, _⟩ := @exists_walk_eq [] front reached inside here
  rw [List.append_nil] at walked
  rw [walked]
  exact List.prefix_append here below

end Path

/-- A name with an underscore does not lead to the parent. -/
theorem ne_up_of_mem {name : RawText} {text : String} (underscore : '_' ∈ text.toList) :
    name ++ text ≠ Path.up := by
  intro same
  have inside : UInt8.ofNat '_'.toNat ∈ (RawText.ofText text).bytes :=
    (Utf8.mem_encode_iff (by decide)).mpr underscore
  have isUp : UInt8.ofNat '_'.toNat ∈ Path.up.bytes := by
    rw [← same]
    exact List.mem_append_right _ inside
  exact absurd isUp (by decide)

theorem dated_ne_up (name : RawText) (date : Date) : dated name date ≠ Path.up :=
  ne_up_of_mem (by simp [dating])

theorem numbered_ne_up (name : RawText) (index : Nat) : numbered name index ≠ Path.up :=
  ne_up_of_mem (by simp [numbering])

theorem label_ne_up (domain : String) (date : Date) :
    RawText.ofText (label domain date) ≠ Path.up :=
  ofText_label domain date ▸ dated_ne_up domain date

theorem fileName_ne_up (label : String) (index : Nat) :
    RawText.ofText (fileName label index) ≠ Path.up :=
  ofText_fileName label index ▸ numbered_ne_up label index

/-- From any directory the label leads to a place directly in it, and so do its numbered files. -/
structure LeadsInto (label : String) (last : RawText) : Prop where
  relative : Path.isAbsolute label = false
  walk_label : ∀ here, Place.walk here (Path.names label) = here ++ [last]
  walk_fileName : ∀ here index, Place.walk here (Path.names (fileName label index)) =
    here ++ [numbered last index]

theorem Path.IsShallow.leadsInto {domain : String} {date : Date}
    (shallow : Path.IsShallow (label domain date)) :
    ∃ last, LeadsInto (label domain date) last := by
  obtain ⟨before, stem, labelNames, fileNames⟩ := exists_names_label domain date
  rw [← ofText_label] at labelNames
  have depth := shallow.2
  rw [labelNames, Path.depthAfter_append, Option.bind_eq_some_iff] at depth
  obtain ⟨reached, inside, last⟩ := depth
  have stays : reached = 0 := by
    simpa [Path.depthAfter, dated_ne_up] using last
  subst stays
  have walked : ∀ here, Place.walk here before = here := by
    intro here
    obtain ⟨below, walked, nowhere⟩ := @Path.exists_walk_eq [] before 0 inside here
    rw [List.length_eq_zero_iff.mp nowhere, List.append_nil] at walked
    exact walked
  refine ⟨dated stem date, shallow.1, ?_, ?_⟩
  · intro here
    rw [labelNames, Place.walk_concat _ _ (dated_ne_up stem date), walked]
  · intro here index
    rw [ofText_fileName, ofText_label, fileNames,
      Place.walk_concat _ _ (numbered_ne_up _ index), walked]

def sampleDay : Date :=
  (Date.ofParts? 2024 8 30).get rfl

example : Path.IsShallow (label "./x" sampleDay) ∧ ¬ Path.IsShallow (label "../x" sampleDay) := by
  decide +kernel

theorem isShallow_label {domain : String} (noSlash : '/' ∉ domain.toList) (date : Date) :
    Path.IsShallow (label domain date) := by
  rw [Path.IsShallow, Path.names_ofText (slash_not_mem_label noSlash date)
    (one_lt_length_label domain date)]
  refine ⟨Path.isAbsolute_ofText (slash_not_mem_label noSlash date), ?_⟩
  simp [Path.depthAfter, label_ne_up]

theorem leadsInto_label {domain : String} (noSlash : '/' ∉ domain.toList) (date : Date) :
    LeadsInto (label domain date) (label domain date) := by
  have noSlash := slash_not_mem_label noSlash date
  refine ⟨Path.isAbsolute_ofText noSlash, ?_, ?_⟩
  · intro here
    rw [Path.names_ofText noSlash (one_lt_length_label domain date)]
    exact Place.walk_concat here [] (label_ne_up domain date)
  · intro here index
    rw [Path.names_ofText (slash_not_mem_fileName noSlash index) (one_lt_length_fileName _ index),
      ofText_fileName]
    exact Place.walk_concat here [] (numbered_ne_up _ index)

namespace FileTree

variable {tree tree' : FileTree}

theorem target_join {base path : RawText} (relative : Path.isAbsolute path = false) :
    tree.target (Path.join base path) =
      Place.walk (tree.target base) (Path.names path) := by
  rw [target, start, Path.isAbsolute_join relative, Path.names_join relative, Place.walk_append]
  rfl

end FileTree

section

variable {tree tree' : FileTree} {directory : RawText} {ders : List (List UInt8)}

/-- What differs after a saving in a directory that is there is a file of its own. -/
theorem saveFrom_lookup_eq_or {label : String} {index : Nat}
    {result : Except SaveError (List RawText)}
    (saved : saveFrom FileTree.disk directory label index ders tree = (result, tree'))
    (place : Place) :
    tree'.lookup place = tree.lookup place ∨
      ∃ offset der, ders[offset]? = some der ∧
        place = tree.target (Path.join directory (fileName label (index + offset))) ∧
        tree'.lookup place = some (.file (certificateFile der)) := by
  induction ders generalizing index tree result with
  | nil =>
      cases saved
      exact .inl rfl
  | cons der ders inductionHypothesis =>
      rcases saveFrom_cons saved with ⟨_, failed, _⟩ | ⟨middle, rest, written, behind, _⟩
      · rw [FileTree.eq_of_writeFile_eq_error failed]
        exact .inl rfl
      · obtain ⟨target, leads, noDirectory, rfl⟩ := FileTree.writeFile_eq_ok_iff.mp written
        rcases inductionHypothesis behind with same | ⟨offset, other, isOther, isPlace, present⟩
        · rw [same]
          by_cases isTarget : place = target
          · subst isTarget
            refine .inr ⟨0, der, rfl, leads.eq_target, FileTree.lookup_put_self leads.ne_nil _⟩
          · exact .inl (FileTree.lookup_put_of_ne isTarget _)
        · refine .inr ⟨offset + 1, other, isOther, ?_, present⟩
          rw [isPlace, Nat.add_right_comm, Nat.add_assoc]
          rfl

theorem save_keepsDirectories {base : RawText} {domain : String} {date : Date}
    {result : Except SaveError (List RawText)}
    (saved : save FileTree.disk base domain date ders tree = (result, tree')) :
    tree.KeepsDirectories tree' := by
  rcases save_cases saved with ⟨_, made, _⟩ | ⟨middle, made, behind⟩
  · exact (FileTree.createDirectories_growsAlong made).1.keepsDirectories
  · exact (FileTree.createDirectories_growsAlong made).1.keepsDirectories.trans
      (saveFrom_keepsDirectories behind)

/-- The directory of a saving that succeeds is there afterwards. -/
theorem save_directory {base : RawText} {domain : String} {date : Date} {paths : List RawText}
    (saved : save FileTree.disk base domain date ders tree = (.ok paths, tree')) :
    tree'.lookup (tree.target (directoryFor base domain date)) = some .directory := by
  rcases save_cases saved with ⟨_, _, failed⟩ | ⟨middle, made, behind⟩
  · cases failed
  · have reached := (FileTree.createDirectories_growsAlong made).2 rfl
    obtain ⟨before, stem, names, _⟩ := exists_names_label (Path.join base domain) date
    rw [← join_label] at names
    rw [directoryFor, names, FileTree.descend_concat_eq_ok_iff (dated_ne_up stem date)] at reached
    obtain ⟨parent, _, _, _, present⟩ := reached
    exact (saveFrom_keepsDirectories behind).directory present

end

namespace LeadsInto

variable {tree tree' : FileTree} {base last : RawText} {domain : String} {date : Date}
  {ders : List (List UInt8)} {result : Except SaveError (List RawText)}
  (leads : LeadsInto (label domain date) last)
include leads

theorem target_directoryFor (base : RawText) :
    tree.target (directoryFor base domain date) = tree.target base ++ [last] := by
  rw [directoryFor, FileTree.target_join leads.relative, leads.walk_label]

theorem target_fileName (directory : RawText) (index : Nat) :
    tree.target (Path.join directory (fileName (label domain date) index)) =
      tree.target directory ++ [numbered last index] := by
  rw [FileTree.target_join, leads.walk_fileName]
  rw [ofText_fileName, isAbsolute_numbered]
  exact leads.relative

/-- What differs after a saving is a directory on the way to its own, which was missing, or one of
its files. -/
theorem save_lookup_eq_or
    (saved : save FileTree.disk base domain date ders tree = (result, tree')) (place : Place) :
    tree'.lookup place = tree.lookup place ∨
    (tree.lookup place = none ∧ tree'.lookup place = some .directory ∧
      ∃ front, front <+: Path.names base ++ Path.names (label domain date) ∧
        place = Place.walk (tree.start base) front) ∨
    ∃ index der, ders[index]? = some der ∧
      place = tree.target (directoryFor base domain date) ++ [numbered last index] ∧
      tree'.lookup place = some (.file (certificateFile der)) := by
  have along {outcome middle}
      (made : tree.createDirectories (directoryFor base domain date) = (outcome, middle)) :
      FileTree.GrowsAlong (tree.start base)
        (Path.names base ++ Path.names (label domain date)) tree middle := by
    have grows := (FileTree.createDirectories_growsAlong made).1
    rw [directoryFor, Path.names_join leads.relative, FileTree.start,
      Path.isAbsolute_join leads.relative] at grows
    exact grows
  rcases save_cases saved with ⟨_, made, _⟩ | ⟨middle, made, behind⟩
  · rcases (along made).lookup_eq_or place with same | isNew
    · exact .inl same
    · exact .inr (.inl isNew)
  · rcases saveFrom_lookup_eq_or behind place with same | ⟨index, der, isDer, isPlace, present⟩
    · rw [same]
      rcases (along made).lookup_eq_or place with same | isNew
      · exact .inl same
      · exact .inr (.inl isNew)
    · rw [leads.target_fileName, (along made).keepsDirectories.target_eq,
        Nat.zero_add] at isPlace
      exact .inr (.inr ⟨index, der, isDer, isPlace, present⟩)

/-- A certificate that was saved is in the file of its number. -/
theorem save_file {paths : List RawText}
    (saved : save FileTree.disk base domain date ders tree = (.ok paths, tree'))
    {index : Nat} {der : List UInt8} (isDer : ders[index]? = some der) :
    tree'.LeadsTo
        (Path.join (directoryFor base domain date) (fileName (label domain date) index))
        (tree.target (directoryFor base domain date) ++ [numbered last index]) ∧
      tree'.lookup (tree.target (directoryFor base domain date) ++ [numbered last index]) =
        some (.file (certificateFile der)) := by
  obtain ⟨_, held⟩ := save_eq_ok saved
  obtain ⟨bound, rfl⟩ := List.getElem?_eq_some_iff.mp isDer
  rw [save_paths saved, List.forall₂_map_left_iff, List.forall₂_iff_get] at held
  have read := held.2 index (by simpa using bound) bound
  rw [List.get_eq_getElem, List.getElem_range] at read
  obtain ⟨place, leadsTo, present⟩ := FileTree.exists_leadsTo_of_readFile? read
  have isPlace := leadsTo.eq_target
  rw [(save_keepsDirectories saved).target_eq, leads.target_fileName] at isPlace
  subst isPlace
  exact ⟨leadsTo, present⟩

/-- The files in the directory of a saving that succeeds are its own, and those of before that have
not the name of one of them. -/
theorem save_lookup_file_iff {paths : List RawText}
    (saved : save FileTree.disk base domain date ders tree = (.ok paths, tree'))
    (rest : List RawText) (content : List UInt8) :
    tree'.lookup (tree.target (directoryFor base domain date) ++ rest) = some (.file content) ↔
      (∃ index der, ders[index]? = some der ∧ rest = [numbered last index] ∧
        content = certificateFile der) ∨
      tree.lookup (tree.target (directoryFor base domain date) ++ rest) = some (.file content) ∧
        ∀ index < ders.length, rest ≠ [numbered last index] := by
  have changes := leads.save_lookup_eq_or saved
    (tree.target (directoryFor base domain date) ++ rest)
  constructor
  · intro present
    by_cases rewritten : ∃ index < ders.length, rest = [numbered last index]
    · obtain ⟨index, bound, rfl⟩ := rewritten
      have isDer := List.getElem?_eq_getElem bound
      have sameFile := present.symm.trans (leads.save_file saved isDer).2
      exact .inl ⟨index, _, isDer, rfl, Node.file.inj (Option.some.inj sameFile)⟩
    · have distinct : ∀ index < ders.length, rest ≠ [numbered last index] :=
        fun index bound same => rewritten ⟨index, bound, same⟩
      rcases changes with unchanged | ⟨_, isDirectory, _⟩ | ⟨index, der, isDer, isPlace, _⟩
      · exact .inr ⟨unchanged.symm.trans present, distinct⟩
      · cases present.symm.trans isDirectory
      · exact absurd (List.append_cancel_left isPlace)
          (distinct index (List.getElem?_eq_some_iff.mp isDer).1)
  · rintro (⟨index, der, isDer, rfl, isContent⟩ | ⟨present, distinct⟩)
    · rw [isContent]
      exact (leads.save_file saved isDer).2
    · rcases changes with unchanged | ⟨absent, _, _⟩ | ⟨index, der, isDer, isPlace, _⟩
      · rw [unchanged]
        exact present
      · cases absent.symm.trans present
      · exact absurd (List.append_cancel_left isPlace)
          (distinct index (List.getElem?_eq_some_iff.mp isDer).1)

end LeadsInto

/-- Nothing differs between the trees but what is in the directory of the path, and directories on
the way there, which were missing. -/
def FileTree.ChangesWithin (tree : FileTree) (base : RawText) (tree' : FileTree) : Prop :=
  ∀ place, tree'.lookup place ≠ tree.lookup place →
    (tree.lookup place = none ∧ tree'.lookup place = some .directory ∧
      ∃ front, front <+: Path.names base ∧ place = Place.walk (tree.start base) front) ∨
    tree.target base <+: place

/-- Whether it succeeds or not, a saving for the domain and date changes nothing outside its output
directory, and the paths it gives are those of files directly in the directory of the results. -/
def IsContained (domain : String) (date : Date) : Prop :=
  ∀ (base : RawText) (ders : List (List UInt8)) (tree : FileTree)
    (result : Except SaveError (List RawText)) (tree' : FileTree),
    save FileTree.disk base domain date ders tree = (result, tree') →
    tree.ChangesWithin base tree' ∧
    ∀ paths, result = .ok paths → ∀ path ∈ paths, ∃ name content,
      tree'.LeadsTo path (tree.target (directoryFor base domain date) ++ [name]) ∧
      tree'.lookup (tree.target (directoryFor base domain date) ++ [name]) =
        some (.file content)

theorem Path.IsShallow.isContained {domain : String} {date : Date}
    (shallow : Path.IsShallow (label domain date)) : IsContained domain date := by
  intro base ders tree result tree' saved
  obtain ⟨last, leads⟩ := shallow.leadsInto
  refine ⟨?_, ?_⟩
  · intro place changed
    rcases leads.save_lookup_eq_or saved place with
      same | ⟨absent, present, front, along, reached⟩ | ⟨index, der, _, isPlace, _⟩
    · exact absurd same changed
    · rcases List.prefix_or_prefix_of_prefix along (List.prefix_append _ _) with
        before | ⟨behind, split⟩
      · exact .inl ⟨absent, present, front, before, reached⟩
      · rw [← split, List.prefix_append_right_inj] at along
        rw [← split, Place.walk_append] at reached
        rw [reached]
        exact .inr (shallow.prefix_walk along _)
    · rw [isPlace, leads.target_directoryFor, List.append_assoc]
      exact .inr (List.prefix_append _ _)
  · rintro paths rfl path membership
    rw [save_paths saved] at membership
    obtain ⟨index, bound, rfl⟩ := List.mem_map.mp membership
    have isDer := List.getElem?_eq_getElem (List.mem_range.mp bound)
    obtain ⟨leadsTo, present⟩ := leads.save_file saved isDer
    exact ⟨_, _, leadsTo, present⟩

end CertificateAudit.Store
