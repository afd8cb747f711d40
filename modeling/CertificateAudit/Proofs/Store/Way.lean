import CertificateAudit.Proofs.Store.Directories
import Mathlib.Tactic.MkIffOfInductiveProp

/-!
When directories can be made. Following names walks into one place after the other
(`Place.way`); it succeeds just if the names are short and all these places are directories
(`descend_eq_ok_iff`). Making a directory with its parents succeeds just if the names are short
and no file stands at any of them (`createDirectories_succeeds_iff`), and afterwards all of them
are directories and nothing else has changed (`createDirectories_lookup`).
-/

namespace CertificateAudit.Store

open CertificateAudit.Text

namespace Place

/-- The places that names walk into, in their order. Going up enters no place. -/
def way : (here : Place) → List RawText → List Place
  | _, [] => []
  | here, name :: names =>
      if name = Path.up then way here.dropLast names
      else (here ++ [name]) :: way (here ++ [name]) names

theorem way_append (here : Place) (front back : List RawText) :
    way here (front ++ back) = way here front ++ way (walk here front) back := by
  induction front generalizing here with
  | nil => rfl
  | cons name front inductionHypothesis =>
      simp only [List.cons_append, way, walk, inductionHypothesis]
      split <;> rfl

theorem way_concat (here : Place) (front : List RawText) {name : RawText} (notUp : name ≠ Path.up) :
    way here (front ++ [name]) = way here front ++ [walk here front ++ [name]] := by
  rw [way_append]
  simp [way, notUp]

end Place

namespace FileTree

variable {tree tree' : FileTree} {here there place : Place} {names front reversed : List RawText}
  {name path : RawText}

/-- Names can be followed just if they are short and walk into directories only. -/
theorem descend_eq_ok_iff :
    tree.descend here names = .ok there ↔
      (∀ name ∈ names, isLongName name = false) ∧
      (∀ place ∈ Place.way here names, tree.lookup place = some .directory) ∧
      there = Place.walk here names := by
  induction names generalizing here with
  | nil =>
      constructor
      · rintro reached
        cases reached
        simp [Place.way, Place.walk]
      · rintro ⟨_, _, rfl⟩
        rfl
  | cons name names inductionHypothesis =>
      rw [descend_eq_ok_cons]
      by_cases up : name = Path.up
      · have short : isLongName Path.up = false := by decide
        simp [up, short, Place.way, Place.walk, inductionHypothesis]
      · simp only [up, false_and, not_false_eq_true, true_and, false_or, ne_eq,
          inductionHypothesis, Place.way, Place.walk, if_false, List.forall_mem_cons]
        tauto

/-- Nothing is in the way of making a directory: the names are short, and no file stands where
they walk into. -/
@[mk_iff]
structure IsOpen (tree : FileTree) (here : Place) (names : List RawText) : Prop where
  short : ∀ name ∈ names, isLongName name = false
  noFile : ∀ place ∈ Place.way here names, ∀ content, tree.lookup place ≠ some (.file content)

namespace IsOpen

theorem of_append (isOpen : tree.IsOpen here (front ++ names)) : tree.IsOpen here front := by
  refine ⟨?_, ?_⟩
  · intro name membership
    exact isOpen.short name (List.mem_append_left _ membership)
  · intro place onTheWay
    apply isOpen.noFile
    rw [Place.way_append]
    exact List.mem_append_left _ onTheWay

theorem descend (isOpen : tree.IsOpen here names) :
    tree.descend here names = .ok (Place.walk here names) ∨
      tree.descend here names = .error .noSuchFile := by
  induction names generalizing here with
  | nil => exact .inl rfl
  | cons name names inductionHypothesis =>
      obtain ⟨short, others⟩ := List.forall_mem_cons.mp isOpen.short
      have noFile := isOpen.noFile
      by_cases up : name = Path.up
      · simp only [Place.way, if_pos up] at noFile
        simp only [FileTree.descend, Place.walk, if_pos up]
        exact inductionHypothesis ⟨others, noFile⟩
      · simp only [Place.way, if_neg up, List.forall_mem_cons] at noFile
        simp only [FileTree.descend, Place.walk, if_neg up, short, Bool.false_eq_true, if_false]
        cases found : tree.lookup (here ++ [name]) with
        | none => exact .inr rfl
        | some node =>
            cases node with
            | file content => exact absurd found (noFile.1 content)
            | directory => exact inductionHypothesis ⟨others, noFile.2⟩

/-- Where the parent is there, the directory is made or is there already. -/
theorem makeDirectory (isOpen : tree.IsOpen here (front ++ [name]))
    (reached : tree.descend here front = .ok there) :
    (∃ tree', tree.makeDirectory here (front ++ [name]) = .ok tree') ∨
      tree.descend here (front ++ [name]) = .ok (Place.walk here (front ++ [name])) := by
  rcases isOpen.descend with present | missing
  · exact .inr present
  · rw [descend_append, reached] at missing
    have short := isOpen.short name (by simp)
    have notUp : name ≠ Path.up := by
      rintro rfl
      cases missing
    have absent : tree.lookup (there ++ [name]) = none := by
      by_contra present
      obtain ⟨node, found⟩ := Option.ne_none_iff_exists'.mp present
      cases node <;> simp [Except.bind, FileTree.descend, notUp, short, found] at missing
    refine .inl ⟨tree.put (there ++ [name]) .directory, ?_⟩
    simp only [FileTree.makeDirectory, List.getLast?_concat, List.dropLast_concat, reached, bind,
      Except.bind, if_neg notUp, short, Bool.false_eq_true, if_false, absent]

theorem grows (isOpen : tree.IsOpen here names) {other : Place} {along : List RawText}
    (grows : GrowsAlong other along tree tree') : tree'.IsOpen here names := by
  refine ⟨isOpen.short, ?_⟩
  intro place onTheWay content
  rw [Ne, grows.lookup_file_iff]
  exact isOpen.noFile place onTheWay content

end IsOpen

theorem makeUpTo_of_isOpen (isOpen : tree.IsOpen here reversed.reverse) :
    ∃ tree', makeUpTo here reversed tree = (.ok (), tree') := by
  induction reversed with
  | nil => exact ⟨tree, rfl⟩
  | cons name parents inductionHypothesis =>
      rw [List.reverse_cons] at isOpen
      rcases isOpen.of_append.descend with reached | missing
      · rcases isOpen.makeDirectory reached with ⟨after, made⟩ | present
        · refine ⟨after, ?_⟩
          simp only [makeUpTo, List.reverse_cons, made]
        · rw [← List.reverse_cons] at present
          exact ⟨tree, makeUpTo_of_descend present⟩
      · obtain ⟨middle, above⟩ := inductionHypothesis isOpen.of_append
        obtain ⟨grows, reached⟩ := makeUpTo_growsAlong above
        have missing : tree.makeDirectory here (parents.reverse ++ [name]) =
            .error .noSuchFile := by
          simp only [makeDirectory, List.getLast?_concat, List.dropLast_concat, missing, bind,
            Except.bind]
        rcases (isOpen.grows grows).makeDirectory (reached rfl) with ⟨after, made⟩ | present
        · refine ⟨after, ?_⟩
          simp only [makeUpTo, List.reverse_cons, missing, above, made]
        · refine ⟨middle, ?_⟩
          simp only [makeUpTo, List.reverse_cons, missing, above,
            makeDirectory_of_descend present, leadsToDirectory_of_descend present, and_self,
            if_true]

theorem makeDirectory_lookup_of_not_mem (made : tree.makeDirectory here names = .ok tree')
    (aside : place ∉ Place.way here names) : tree'.lookup place = tree.lookup place := by
  obtain ⟨front, name, parent, rfl, notUp, _, reached, _, rfl⟩ := makeDirectory_eq_ok made
  apply lookup_put_of_ne
  rintro rfl
  apply aside
  rw [Place.way_concat _ _ notUp, eq_walk_of_descend reached]
  exact List.mem_append_right _ List.mem_cons_self

/-- Nothing is made but on the way. -/
theorem makeUpTo_lookup_of_not_mem {result : Except FileFailure Unit}
    (made : makeUpTo here reversed tree = (result, tree'))
    (aside : place ∉ Place.way here reversed.reverse) :
    tree'.lookup place = tree.lookup place := by
  have asideAbove {name : RawText} {parents : List RawText}
      (aside : place ∉ Place.way here (name :: parents).reverse) :
      place ∉ Place.way here parents.reverse := by
    rw [List.reverse_cons, Place.way_append, List.mem_append, not_or] at aside
    exact aside.1
  fun_induction makeUpTo here reversed tree generalizing result tree' with
  | case1 tree =>
      cases made
      rfl
  | case2 name parents tree names after =>
      rename_i single
      cases made
      exact makeDirectory_lookup_of_not_mem single aside
  | case3 name parents tree names missing failure after =>
      rename_i above inductionHypothesis
      cases made
      exact inductionHypothesis above (asideAbove aside)
  | case4 name parents tree names missing middle above =>
      rename_i single inductionHypothesis
      cases made
      rw [makeDirectory_lookup_of_not_mem single aside]
      exact inductionHypothesis above (asideAbove aside)
  | case5 name parents tree names missing after above =>
      rename_i inductionHypothesis
      cases made
      exact inductionHypothesis above (asideAbove aside)
  | case6 name parents tree names missing after above =>
      rename_i inductionHypothesis
      cases made
      exact inductionHypothesis above (asideAbove aside)
  | case7 =>
      cases made
      rfl
  | case8 =>
      cases made
      rfl

/-- The places that a path walks into. -/
def wayTo (tree : FileTree) (path : RawText) : List Place :=
  Place.way (tree.start path) (Path.names path)

theorem KeepsDirectories.wayTo_eq (kept : tree.KeepsDirectories tree') (path : RawText) :
    tree'.wayTo path = tree.wayTo path := by
  rw [wayTo, kept.start_eq, wayTo]

/-- A directory can be made with its parents just if nothing is in the way. -/
theorem createDirectories_succeeds_iff :
    (∃ tree', createDirectories path tree = (.ok (), tree')) ↔
      pathFailure? path = none ∧ tree.IsOpen (tree.start path) (Path.names path) := by
  constructor
  · rintro ⟨tree', made⟩
    obtain ⟨grows, reached⟩ := createDirectories_growsAlong made
    obtain ⟨short, directories, _⟩ := descend_eq_ok_iff.mp (reached rfl)
    refine ⟨pathFailure?_of_createDirectories made, short, ?_⟩
    intro place onTheWay content present
    cases (directories place onTheWay).symm.trans ((grows.lookup_file_iff content).mpr present)
  · rintro ⟨usable, isOpen⟩
    rw [← List.reverse_reverse (Path.names path)] at isOpen
    obtain ⟨tree', made⟩ := makeUpTo_of_isOpen isOpen
    refine ⟨tree', ?_⟩
    rw [createDirectories, usable]
    exact made

/-- When it has been made, everything on the way is a directory, and nothing else has changed. -/
theorem createDirectories_lookup (made : createDirectories path tree = (.ok (), tree'))
    (place : Place) :
    tree'.lookup place =
      if place ∈ tree.wayTo path then some .directory else tree.lookup place := by
  split
  case isTrue onTheWay =>
    have reached := (createDirectories_growsAlong made).2 rfl
    exact (descend_eq_ok_iff.mp reached).2.1 place onTheWay
  case isFalse aside =>
    rw [createDirectories, pathFailure?_of_createDirectories made] at made
    apply makeUpTo_lookup_of_not_mem made
    rw [List.reverse_reverse]
    exact aside

end FileTree

end CertificateAudit.Store
