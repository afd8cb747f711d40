import CertificateAudit.Proofs.Store.Containment
import CertificateAudit.Proofs.Store.Way
import Mathlib.Data.Fintype.EquivFin

/-!
Labels that are not shallow. One that climbs out of the directory where it starts makes
directories outside the output directory, at least in a tree where nothing is in its way; any other
leads the files away from the directory of the results. So the savings for a domain and date are
contained exactly if the label is shallow, unless nothing can be saved at all:
`isContained_iff_isShallow`.
-/

namespace CertificateAudit.Store

open CertificateAudit.Calendar CertificateAudit.Text

namespace FileTree

variable {tree : FileTree} {names : List RawText} {path : RawText}

def HasNoFile (tree : FileTree) : Prop :=
  ∀ place content, tree.lookup place ≠ some (.file content)

theorem HasNoFile.isOpen (noFile : tree.HasNoFile)
    (short : ∀ name ∈ names, isLongName name = false) (here : Place) : tree.IsOpen here names :=
  ⟨short, fun place _ => noFile place⟩

theorem target_join_of_isAbsolute {base : RawText} (absolute : Path.isAbsolute path = true) :
    tree.target (Path.join base path) = Place.walk [] (Path.names path) := by
  simp [target, start, Path.join, absolute]

theorem pathFailure?_of_join {base : RawText} (usable : pathFailure? (Path.join base path) = none) :
    pathFailure? path = none := by
  have ends : ∃ front, Path.join base path = front ++ path := by
    unfold Path.join
    split
    · exact ⟨"", rfl⟩
    · split
      · exact ⟨base, rfl⟩
      · exact ⟨base ++ "/", rfl⟩
  obtain ⟨front, joined⟩ := ends
  rw [joined] at usable
  simp only [pathFailure?, RawText.bytes_append, List.length_append, List.contains_append,
    Bool.or_eq_true] at usable ⊢
  split at usable
  case isTrue => cases usable
  case isFalse noNul =>
    split at usable
    case isTrue => cases usable
    case isFalse short =>
      rw [if_neg fun nul => noNul (.inr nul), if_neg]
      omega

end FileTree

instance : Infinite RawText :=
  .of_injective RawText.mk fun _ _ same => RawText.mk.inj same

theorem Place.mem_of_mem_walk {here : Place} {names : List RawText} {name : RawText}
    (membership : name ∈ Place.walk here names) : name ∈ here ∨ name ∈ names := by
  induction names generalizing here with
  | nil => exact .inl membership
  | cons first names inductionHypothesis =>
      by_cases up : first = Path.up
      · rw [Place.walk, if_pos up] at membership
        rcases inductionHypothesis membership with before | behind
        · exact .inl (List.mem_of_mem_dropLast before)
        · exact .inr (List.mem_cons_of_mem first behind)
      · rw [Place.walk, if_neg up] at membership
        rcases inductionHypothesis membership with before | behind
        · rcases List.mem_append.mp before with before | isFirst
          · exact .inl before
          · exact .inr (List.mem_singleton.mp isFirst ▸ List.mem_cons_self)
        · exact .inr (List.mem_cons_of_mem first behind)

/-- A walk that leaves the directory where it starts does not come back to it, if no name on the
way is the name of that directory. -/
theorem Path.not_prefix_walk {start : RawText} {below : Place} {names : List RawText}
    (climbs : depthAfter below.length names = none) (fresh : start ∉ names) :
    ¬ [start] <+: Place.walk (start :: below) names := by
  induction names generalizing below with
  | nil => cases climbs
  | cons name names inductionHypothesis =>
      simp only [List.mem_cons, not_or] at fresh
      by_cases up : name = Path.up
      · rw [depthAfter, if_pos up] at climbs
        rw [Place.walk, if_pos up]
        rcases List.eq_nil_or_concat below with rfl | ⟨above, last, rfl⟩
        · intro back
          rcases Place.mem_of_mem_walk (back.subset List.mem_cons_self) with absent | later
          · cases absent
          · exact fresh.2 later
        · rw [List.concat_eq_append, ← List.cons_append, List.dropLast_concat]
          apply inductionHypothesis _ fresh.2
          simpa using climbs
      · rw [depthAfter, if_neg up] at climbs
        rw [Place.walk, if_neg up, List.cons_append]
        apply inductionHypothesis _ fresh.2
        simpa using climbs

variable {domain : String} {date : Date}

/-- A tree with nothing in it but the directory where relative paths start. -/
def FileTree.onlyStart (start : RawText) : FileTree :=
  ⟨[([start], .directory)], [start]⟩

theorem FileTree.lookup_onlyStart {start : RawText} {place : Place} {node : Node}
    (present : (onlyStart start).lookup place = some node) :
    (place = [] ∨ place = [start]) ∧ node = .directory := by
  unfold lookup at present
  split at present
  case isTrue root =>
    cases present
    exact ⟨.inl (List.isEmpty_iff.mp root), rfl⟩
  case isFalse =>
    rw [onlyStart, List.lookup_cons] at present
    split at present
    case h_1 same =>
      cases present
      exact ⟨.inr (eq_of_beq same), rfl⟩
    case h_2 => cases present

theorem FileTree.hasNoFile_onlyStart (start : RawText) : (onlyStart start).HasNoFile := by
  intro place content present
  cases (lookup_onlyStart present).2

theorem exists_save_onlyStart (usable : FileTree.pathFailure? (label domain date) = none)
    (short : ∀ name ∈ Path.names (label domain date), FileTree.isLongName name = false)
    (start : RawText) :
    ∃ tree', save FileTree.disk "" domain date [] (FileTree.onlyStart start) = (.ok [], tree') := by
  have isOpen := (FileTree.hasNoFile_onlyStart start).isOpen short
    ((FileTree.onlyStart start).start (label domain date))
  obtain ⟨middle, created⟩ := FileTree.createDirectories_succeeds_iff.mpr ⟨usable, isOpen⟩
  have joined : directoryFor "" domain date = label domain date := by
    have nothing : RawText.isEmpty "" = true := by decide
    rw [directoryFor, Path.join, nothing, Bool.or_true, if_pos rfl]
  rw [← joined] at created
  rcases saved : save FileTree.disk "" domain date [] (FileTree.onlyStart start) with
    ⟨result, tree'⟩
  rcases save_cases saved with ⟨failure, failed, _⟩ | ⟨_, _, behind⟩
  · cases created.symm.trans failed
  · cases behind
    exact ⟨tree', rfl⟩

/-- In a tree where nothing is in its way, a label that climbs makes a directory outside. -/
theorem not_isContained_of_climbs (relative : Path.isAbsolute (label domain date) = false)
    (climbs : Path.depthAfter 0 (Path.names (label domain date)) = none)
    (usable : FileTree.pathFailure? (label domain date) = none)
    (short : ∀ name ∈ Path.names (label domain date), FileTree.isLongName name = false) :
    ¬ IsContained domain date := by
  intro contained
  obtain ⟨start, fresh⟩ :=
    Infinite.exists_notMem_finset (Path.names (label domain date)).toFinset
  rw [List.mem_toFinset] at fresh
  obtain ⟨tree', saved⟩ := exists_save_onlyStart usable short start
  have present := save_directory saved
  have outside := @Path.not_prefix_walk start [] _ climbs fresh
  have directory : (FileTree.onlyStart start).target (directoryFor "" domain date) =
      Place.walk [start] (Path.names (label domain date)) := by
    rw [directoryFor, FileTree.target_join relative]
    rfl
  rw [directory] at present
  have isNew : (FileTree.onlyStart start).lookup
      (Place.walk [start] (Path.names (label domain date))) = none := by
    rw [Option.eq_none_iff_forall_ne_some]
    intro node already
    rcases (FileTree.lookup_onlyStart already).1 with isRoot | isStart
    · obtain ⟨before, stem, names, _⟩ := exists_names_label domain date
      rw [ofText_label, names, Place.walk_concat _ _ (dated_ne_up stem date)] at isRoot
      exact List.append_ne_nil_of_right_ne_nil _ (List.cons_ne_nil _ _) isRoot
    · rw [isStart] at outside
      exact outside List.prefix_rfl
  have changed : tree'.lookup (Place.walk [start] (Path.names (label domain date))) ≠
      (FileTree.onlyStart start).lookup
        (Place.walk [start] (Path.names (label domain date))) := by
    rw [present, isNew]
    exact Option.some_ne_none _
  rcases (contained "" [] _ _ tree' saved).1 _ changed with ⟨_, _, front, before, reached⟩ | within
  · have noNames : Path.names "" = [] := by decide
    rw [noNames, List.prefix_nil] at before
    rw [reached, before] at outside
    exact outside List.prefix_rfl
  · exact outside within

section Saved

variable {base : RawText} {ders : List (List UInt8)} {tree tree' : FileTree} {paths : List RawText}

theorem usable_of_saved
    (saved : save FileTree.disk base domain date ders tree = (.ok paths, tree'))
    (relative : Path.isAbsolute (label domain date) = false) :
    FileTree.pathFailure? (label domain date) = none ∧
      ∀ name ∈ Path.names (label domain date), FileTree.isLongName name = false := by
  rcases save_cases saved with ⟨_, _, failed⟩ | ⟨middle, made, _⟩
  · cases failed
  · obtain ⟨usable, isOpen⟩ := FileTree.createDirectories_succeeds_iff.mp ⟨middle, made⟩
    have short := isOpen.short
    rw [directoryFor, Path.names_join relative] at short
    refine ⟨FileTree.pathFailure?_of_join usable, ?_⟩
    intro name membership
    exact short name (List.mem_append_right _ membership)

/-- Contained savings put the first file directly into the directory of the results. -/
theorem IsContained.target_fileName (contained : IsContained domain date) (some : ders ≠ [])
    (saved : save FileTree.disk base domain date ders tree = (.ok paths, tree')) :
    ∃ name, tree.target (Path.join (directoryFor base domain date)
        (fileName (label domain date) 0)) =
      tree.target (directoryFor base domain date) ++ [name] := by
  have first : Path.join (directoryFor base domain date) (fileName (label domain date) 0) ∈
      paths := by
    rw [save_paths saved]
    exact List.mem_map.mpr ⟨0, List.mem_range.mpr (List.length_pos_iff.mpr some), rfl⟩
  obtain ⟨name, content, leadsTo, _⟩ := (contained base ders tree _ tree' saved).2 paths rfl _ first
  have direct := leadsTo.eq_target
  rw [(save_keepsDirectories saved).target_eq] at direct
  exact ⟨name, direct.symm⟩

variable {name : RawText}
  (direct : tree.target (Path.join (directoryFor base domain date)
      (fileName (label domain date) 0)) =
    tree.target (directoryFor base domain date) ++ [name])
include direct

/-- Files under an absolute label are beside the directory of the results. -/
theorem isAbsolute_label_of_direct : Path.isAbsolute (label domain date) = false := by
  by_contra absolute
  rw [Bool.not_eq_false] at absolute
  obtain ⟨before, stem, labelNames, fileNames⟩ := exists_names_label domain date
  rw [directoryFor, FileTree.target_join_of_isAbsolute absolute,
    FileTree.target_join_of_isAbsolute ((isAbsolute_fileName _ 0).trans absolute),
    ofText_fileName, ofText_label, labelNames, fileNames,
    Place.walk_concat _ _ (dated_ne_up stem date),
    Place.walk_concat _ _ (numbered_ne_up _ 0)] at direct
  have longer := congrArg List.length direct
  simp at longer

/-- A label that does not climb leads its files further down, unless it is shallow. -/
theorem isShallow_of_direct (inside : Path.depthAfter 0 (Path.names (label domain date)) ≠ none) :
    Path.IsShallow (label domain date) := by
  have relative := isAbsolute_label_of_direct direct
  obtain ⟨before, stem, labelNames, fileNames⟩ := exists_names_label domain date
  rw [FileTree.target_join ((isAbsolute_fileName _ 0).trans relative), ofText_fileName,
    ofText_label, fileNames, Place.walk_concat _ _ (numbered_ne_up _ 0)] at direct
  have stays := (List.append_inj' direct rfl).1
  rw [ofText_label, labelNames, Path.depthAfter_append] at inside
  obtain ⟨last, ends⟩ := Option.ne_none_iff_exists'.mp inside
  obtain ⟨depth, reached, _⟩ := Option.bind_eq_some_iff.mp ends
  obtain ⟨below, walked, length⟩ := @Path.exists_walk_eq [] before depth reached
    (tree.target (directoryFor base domain date))
  rw [List.append_nil, stays, List.self_eq_append_right] at walked
  subst walked length
  refine ⟨relative, ?_⟩
  rw [ofText_label, labelNames, Path.depthAfter_append, reached]
  simp [Path.depthAfter, dated_ne_up]

end Saved

theorem isShallow_of_isContained {base : RawText} {ders : List (List UInt8)} {tree tree' : FileTree}
    {paths : List RawText} (some : ders ≠ [])
    (saved : save FileTree.disk base domain date ders tree = (.ok paths, tree'))
    (contained : IsContained domain date) : Path.IsShallow (label domain date) := by
  obtain ⟨name, direct⟩ := contained.target_fileName some saved
  have relative := isAbsolute_label_of_direct direct
  obtain ⟨usable, short⟩ := usable_of_saved saved relative
  apply isShallow_of_direct direct
  intro climbs
  exact not_isContained_of_climbs relative climbs usable short contained

/-- A domain without a slash has a shallow label, and a shallow label keeps all savings contained.
If anything can be saved for the domain and date at all, no other label does. -/
theorem isContained_iff_isShallow (domain : String) (date : Date) :
    ('/' ∉ domain.toList → Path.IsShallow (label domain date)) ∧
    (Path.IsShallow (label domain date) → IsContained domain date) ∧
    ∀ (base : RawText) (ders : List (List UInt8)) (tree : FileTree) (paths : List RawText)
      (tree' : FileTree), ders ≠ [] →
      save FileTree.disk base domain date ders tree = (.ok paths, tree') →
      (IsContained domain date ↔ Path.IsShallow (label domain date)) := by
  refine ⟨fun noSlash => isShallow_label noSlash date, Path.IsShallow.isContained, ?_⟩
  intro base ders tree paths tree' some saved
  exact ⟨isShallow_of_isContained some saved, Path.IsShallow.isContained⟩

theorem isContained_iff_isShallow_sample :
    IsContained "./x" sampleDay ∧ ¬ IsContained "../x" sampleDay := by
  have shallow : Path.IsShallow (label "./x" sampleDay) := by decide +kernel
  have steep : ¬ Path.IsShallow (label "../x" sampleDay) := by decide +kernel
  have paths : (save FileTree.disk "out" "../x" sampleDay [[1]] {}).1 =
      .ok ["out/../x_2024-08-30/../x_2024-08-30_0.pem"] := by
    decide +kernel
  rcases saved : save FileTree.disk "out" "../x" sampleDay [[1]] {} with ⟨result, tree'⟩
  rw [saved] at paths
  have success : result = .ok ["out/../x_2024-08-30/../x_2024-08-30_0.pem"] := paths
  rw [success] at saved
  refine ⟨(isContained_iff_isShallow "./x" sampleDay).2.1 shallow, ?_⟩
  rw [(isContained_iff_isShallow "../x" sampleDay).2.2 _ _ _ _ _ (List.cons_ne_nil _ _) saved]
  exact steep

/-- A label that climbs out of the output directory puts the results beside it. -/
theorem save_outside :
    (save FileTree.disk "out" "../x" sampleDay [[1]] {}).1 =
        .ok ["out/../x_2024-08-30/../x_2024-08-30_0.pem"] ∧
      ¬ FileTree.ChangesWithin {} "out"
        (save FileTree.disk "out" "../x" sampleDay [[1]] {}).2 := by
  refine ⟨by decide +kernel, ?_⟩
  intro within
  rcases within ["x_2024-08-30"] (by decide +kernel) with ⟨_, _, front, before, reached⟩ | below
  · have names : Path.names "out" = [RawText.ofText "out"] := by decide
    rw [names, List.prefix_cons_iff] at before
    rcases before with rfl | ⟨behind, rfl, rest⟩
    · cases reached
    · rw [List.prefix_nil.mp rest] at reached
      revert reached
      decide
  · revert below
    decide +kernel

end CertificateAudit.Store
