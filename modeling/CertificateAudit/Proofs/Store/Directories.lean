import CertificateAudit.Proofs.Store.FileTree
import Mathlib.Data.List.Infix

/-!
Where paths lead, and what making directories does to a tree. Names are walked whatever stands in
the tree (`Place.walk`), and a descent that succeeds ends where the walk ends. Making directories
lets the tree grow along the walk (`FileTree.GrowsAlong`): where nothing stood there may be a
directory now, and everything else is as it was. Where a directory has been made, making it again
changes nothing (`FileTree.createDirectories_again`).
-/

namespace CertificateAudit.Store

open CertificateAudit.Text

/-- Where names lead from a place, if every directory on the way is there. -/
def Place.walk : (here : Place) → List RawText → Place
  | here, [] => here
  | here, name :: names =>
      if name = Path.up then walk here.dropLast names else walk (here ++ [name]) names

namespace Place

theorem walk_append (here : Place) (front back : List RawText) :
    walk here (front ++ back) = walk (walk here front) back := by
  induction front generalizing here with
  | nil => rfl
  | cons name front inductionHypothesis =>
      simp only [List.cons_append, walk, inductionHypothesis]
      split <;> rfl

theorem walk_concat (here : Place) (front : List RawText) {name : RawText}
    (notUp : name ≠ Path.up) :
    walk here (front ++ [name]) = walk here front ++ [name] := by
  rw [walk_append]
  simp [walk, notUp]

end Place

namespace FileTree

variable {tree tree' : FileTree} {here there place : Place} {names front : List RawText}
  {name path : RawText}

/-- Where a path leads, if every directory on the way is there. -/
def target (tree : FileTree) (path : RawText) : Place :=
  Place.walk (tree.start path) (Path.names path)

theorem KeepsDirectories.target_eq (kept : tree.KeepsDirectories tree') (path : RawText) :
    tree'.target path = tree.target path := by
  simp only [target, kept.start_eq]

theorem descend_eq_ok_cons :
    tree.descend here (name :: names) = .ok there ↔
      (name = Path.up ∧ tree.descend here.dropLast names = .ok there) ∨
      (name ≠ Path.up ∧ isLongName name = false ∧
        tree.lookup (here ++ [name]) = some .directory ∧
        tree.descend (here ++ [name]) names = .ok there) := by
  by_cases up : name = Path.up
  · simp [descend, up]
  · cases long : isLongName name with
    | true => simp [descend, up, long]
    | false =>
        cases found : tree.lookup (here ++ [name]) with
        | none => simp [descend, up, long, found]
        | some node => cases node <;> simp [descend, up, long, found]

theorem descend_append (here : Place) (front back : List RawText) :
    tree.descend here (front ++ back) =
      (tree.descend here front).bind fun there => tree.descend there back := by
  induction front generalizing here with
  | nil => rfl
  | cons name front inductionHypothesis =>
      simp only [List.cons_append, descend, inductionHypothesis]
      split
      case isTrue => rfl
      case isFalse =>
        split
        case isTrue => rfl
        case isFalse => split <;> rfl

theorem descend_concat_eq_ok_iff (notUp : name ≠ Path.up) :
    tree.descend here (front ++ [name]) = .ok there ↔
      ∃ parent, tree.descend here front = .ok parent ∧ isLongName name = false ∧
        there = parent ++ [name] ∧ tree.lookup there = some .directory := by
  rw [descend_append]
  cases tree.descend here front with
  | error failure => simp [Except.bind]
  | ok parent =>
      have single : (Except.ok parent : Except FileFailure Place).bind
          (fun there => tree.descend there [name]) = tree.descend parent [name] := rfl
      rw [single, descend_eq_ok_cons]
      constructor
      · rintro (⟨up, _⟩ | ⟨_, short, present, reached⟩)
        · exact absurd up notUp
        · cases reached
          exact ⟨parent, rfl, short, rfl, present⟩
      · rintro ⟨_, reached, short, rfl, present⟩
        cases reached
        exact .inr ⟨notUp, short, present, rfl⟩

theorem eq_walk_of_descend (reached : tree.descend here names = .ok there) :
    there = Place.walk here names := by
  induction names generalizing here with
  | nil =>
      cases reached
      rfl
  | cons name names inductionHypothesis =>
      rcases descend_eq_ok_cons.mp reached with ⟨up, reached⟩ | ⟨down, _, _, reached⟩
      · rw [Place.walk, if_pos up]
        exact inductionHypothesis reached
      · rw [Place.walk, if_neg down]
        exact inductionHypothesis reached

theorem LeadsTo.eq_target (leads : tree.LeadsTo path place) : place = tree.target path := by
  obtain ⟨_, name, parent, last, notUp, _, reached, rfl⟩ := leads
  obtain ⟨front, split⟩ := List.getLast?_eq_some_iff.mp last
  rw [split, List.dropLast_concat] at reached
  rw [target, split, Place.walk_concat _ _ notUp, ← eq_walk_of_descend reached]

/-- From one tree to the other directories have appeared on the way along the names, where
nothing stood before, and nothing else has changed. -/
structure GrowsAlong (here : Place) (names : List RawText) (tree tree' : FileTree) : Prop where
  workingDirectory_eq : tree'.workingDirectory = tree.workingDirectory
  lookup_eq_or : ∀ place, tree'.lookup place = tree.lookup place ∨
    tree.lookup place = none ∧ tree'.lookup place = some .directory ∧
      ∃ front, front <+: names ∧ place = Place.walk here front

namespace GrowsAlong

theorem refl (tree : FileTree) : GrowsAlong here names tree tree :=
  ⟨rfl, fun _ => .inl rfl⟩

theorem keepsDirectories (grows : GrowsAlong here names tree tree') :
    tree.KeepsDirectories tree' := by
  refine ⟨grows.workingDirectory_eq, ?_⟩
  intro place present
  rcases grows.lookup_eq_or place with same | ⟨absent, _⟩
  · rw [same]
    exact present
  · cases absent.symm.trans present

/-- The regular files are those of before. -/
theorem lookup_file_iff (grows : GrowsAlong here names tree tree') (content : List UInt8) :
    tree'.lookup place = some (.file content) ↔ tree.lookup place = some (.file content) := by
  rcases grows.lookup_eq_or place with same | ⟨absent, present, _⟩
  · rw [same]
  · rw [absent, present]
    constructor <;> nofun

theorem trans {last : FileTree} (first : GrowsAlong here front tree tree')
    (second : GrowsAlong here names tree' last) (onTheWay : front <+: names) :
    GrowsAlong here names tree last := by
  refine ⟨second.workingDirectory_eq.trans first.workingDirectory_eq, ?_⟩
  intro place
  rcases second.lookup_eq_or place with same | ⟨absent, present, reached⟩
  · rw [same]
    rcases first.lookup_eq_or place with same | ⟨absent, present, beginning, before, reached⟩
    · exact .inl same
    · exact .inr ⟨absent, present, beginning, before.trans onTheWay, reached⟩
  · rcases first.lookup_eq_or place with same | ⟨_, already, _⟩
    · rw [same] at absent
      exact .inr ⟨absent, present, reached⟩
    · cases absent.symm.trans already

end GrowsAlong

theorem makeDirectory_eq_ok (made : tree.makeDirectory here names = .ok tree') :
    ∃ front name parent, names = front ++ [name] ∧ name ≠ Path.up ∧ isLongName name = false ∧
      tree.descend here front = .ok parent ∧ tree.lookup (parent ++ [name]) = none ∧
      tree' = tree.put (parent ++ [name]) .directory := by
  unfold makeDirectory at made
  split at made
  case h_1 => cases made
  case h_2 name last =>
    obtain ⟨front, rfl⟩ := List.getLast?_eq_some_iff.mp last
    rw [List.dropLast_concat] at made
    cases reached : tree.descend here front with
    | error failure =>
        rw [reached] at made
        cases made
    | ok parent =>
        simp only [reached, bind, Except.bind] at made
        split at made
        case isTrue => cases made
        case isFalse notUp =>
          split at made
          case isTrue => cases made
          case isFalse short =>
            split at made
            case h_1 => cases made
            case h_2 absent =>
              cases made
              exact ⟨front, name, parent, rfl, notUp, by simpa using short, reached, absent, rfl⟩

theorem makeDirectory_growsAlong (made : tree.makeDirectory here names = .ok tree') :
    GrowsAlong here names tree tree' ∧
      tree'.descend here names = .ok (Place.walk here names) := by
  obtain ⟨front, name, parent, rfl, notUp, short, reached, absent, rfl⟩ := makeDirectory_eq_ok made
  have below : parent ++ [name] ≠ [] := by simp
  have ends := eq_walk_of_descend reached
  have grows : GrowsAlong here (front ++ [name]) tree (tree.put (parent ++ [name]) .directory) := by
    refine ⟨rfl, ?_⟩
    intro place
    by_cases same : place = parent ++ [name]
    · subst same
      refine .inr ⟨absent, lookup_put_self below _, front ++ [name], List.prefix_rfl, ?_⟩
      rw [Place.walk_concat _ _ notUp, ends]
    · exact .inl (lookup_put_of_ne same _)
  refine ⟨grows, ?_⟩
  rw [descend_concat_eq_ok_iff notUp]
  refine ⟨parent, grows.keepsDirectories.descend_eq_ok reached, short, ?_, ?_⟩
  · rw [Place.walk_concat _ _ notUp, ends]
  · rw [Place.walk_concat _ _ notUp, ← ends]
    exact lookup_put_self below _

theorem leadsToDirectory_of_descend (reached : tree.descend here names = .ok there) :
    tree.leadsToDirectory here names = true := by
  simp [leadsToDirectory, reached]

theorem descend_of_leadsToDirectory (leads : tree.leadsToDirectory here names = true) :
    tree.descend here names = .ok (Place.walk here names) := by
  unfold leadsToDirectory at leads
  split at leads
  case h_1 there reached => rw [reached, eq_walk_of_descend reached]
  case h_2 => cases leads

/-- Making a directory and its parents lets the tree grow along the names, also if it fails in
the end; if it succeeds, the names lead to a directory. -/
theorem makeUpTo_growsAlong {reversed : List RawText} {result : Except FileFailure Unit}
    (made : makeUpTo here reversed tree = (result, tree')) :
    GrowsAlong here reversed.reverse tree tree' ∧
      (result = .ok () →
        tree'.descend here reversed.reverse = .ok (Place.walk here reversed.reverse)) := by
  have onTheWay (name : RawText) (parents : List RawText) :
      parents.reverse <+: (name :: parents).reverse := by
    rw [List.reverse_cons]
    exact List.prefix_append _ _
  fun_induction makeUpTo here reversed tree generalizing result tree' with
  | case1 tree =>
      cases made
      exact ⟨.refl _, fun _ => rfl⟩
  | case2 name parents tree names after =>
      rename_i single
      cases made
      obtain ⟨grows, reached⟩ := makeDirectory_growsAlong single
      exact ⟨grows, fun _ => reached⟩
  | case3 name parents tree names missing failure after =>
      rename_i above inductionHypothesis
      cases made
      obtain ⟨grows, _⟩ := inductionHypothesis above
      exact ⟨grows.trans (.refl _) (onTheWay name parents), nofun⟩
  | case4 name parents tree names missing middle above =>
      rename_i single inductionHypothesis
      cases made
      obtain ⟨first, _⟩ := inductionHypothesis above
      obtain ⟨second, reached⟩ := makeDirectory_growsAlong single
      exact ⟨first.trans second (onTheWay name parents), fun _ => reached⟩
  | case5 name parents tree names missing after above =>
      rename_i present inductionHypothesis
      cases made
      obtain ⟨grows, _⟩ := inductionHypothesis above
      exact ⟨grows.trans (.refl _) (onTheWay name parents),
        fun _ => descend_of_leadsToDirectory present.2⟩
  | case6 name parents tree names missing after above =>
      rename_i inductionHypothesis
      cases made
      obtain ⟨grows, _⟩ := inductionHypothesis above
      exact ⟨grows.trans (.refl _) (onTheWay name parents), nofun⟩
  | case7 =>
      rename_i present
      cases made
      exact ⟨.refl _, fun _ => descend_of_leadsToDirectory present.2⟩
  | case8 =>
      cases made
      exact ⟨.refl _, nofun⟩

theorem createDirectories_growsAlong {result : Except FileFailure Unit}
    (made : createDirectories path tree = (result, tree')) :
    GrowsAlong (tree.start path) (Path.names path) tree tree' ∧
      (result = .ok () → tree'.descend (tree.start path) (Path.names path) =
        .ok (tree.target path)) := by
  unfold createDirectories at made
  split at made
  case h_1 =>
    cases made
    exact ⟨.refl _, nofun⟩
  case h_2 =>
    have grows := makeUpTo_growsAlong made
    rw [List.reverse_reverse] at grows
    exact grows

/-! A directory that is there already. -/

theorem makeDirectory_of_descend {front : List RawText} {name : RawText}
    (reached : tree.descend here (front ++ [name]) = .ok there) :
    tree.makeDirectory here (front ++ [name]) = .error .fileExists := by
  rw [makeDirectory, List.getLast?_concat]
  simp only [List.dropLast_concat]
  by_cases up : name = Path.up
  · rw [descend_append] at reached
    cases above : tree.descend here front with
    | error failure =>
        rw [above] at reached
        cases reached
    | ok parent => simp only [bind, Except.bind, if_pos up]
  · obtain ⟨parent, above, short, rfl, present⟩ := (descend_concat_eq_ok_iff up).mp reached
    simp only [above, bind, Except.bind, if_neg up, short, Bool.false_eq_true, if_false, present]

theorem makeUpTo_of_descend {reversed : List RawText}
    (reached : tree.descend here reversed.reverse = .ok there) :
    makeUpTo here reversed tree = (.ok (), tree) := by
  cases reversed with
  | nil => rfl
  | cons name parents =>
      have leads := leadsToDirectory_of_descend reached
      rw [List.reverse_cons] at reached leads
      simp only [makeUpTo, List.reverse_cons, makeDirectory_of_descend reached, leads, and_self,
        if_true]

theorem createDirectories_of_descend (usable : pathFailure? path = none)
    (reached : tree.descend (tree.start path) (Path.names path) = .ok there) :
    createDirectories path tree = (.ok (), tree) := by
  simp only [createDirectories, usable]
  apply makeUpTo_of_descend
  rw [List.reverse_reverse]
  exact reached

theorem pathFailure?_of_createDirectories
    (made : createDirectories path tree = (.ok (), tree')) : pathFailure? path = none := by
  unfold createDirectories at made
  split at made
  case h_1 => cases made
  case h_2 usable => exact usable

/-- Once made, a directory can be made again in every tree that keeps it. -/
theorem createDirectories_again {later : FileTree}
    (made : createDirectories path tree = (.ok (), tree')) (kept : tree'.KeepsDirectories later) :
    createDirectories path later = (.ok (), later) := by
  obtain ⟨grows, reached⟩ := createDirectories_growsAlong made
  apply createDirectories_of_descend (pathFailure?_of_createDirectories made)
  rw [kept.start_eq, grows.keepsDirectories.start_eq]
  exact kept.descend_eq_ok (reached rfl)

end FileTree

end CertificateAudit.Store
