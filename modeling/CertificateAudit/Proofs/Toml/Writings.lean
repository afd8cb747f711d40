import CertificateAudit.Proofs.Toml.Building

/-!
What a document writes, statement by statement, and what of it stands in its tables at the end: a
value stays where it is written unless another table of an array is begun above it, and where
nothing is written nothing stands.
-/

namespace CertificateAudit.Toml

/-- The places that statements write, and what they write there. -/
def writings : (header : List String) → List Statement → List (List String × Thing)
  | _, [] => []
  | header, statement :: statements =>
      (statement.place header, statement.thing) ::
        writings (statement.headerAfter header) statements

theorem writings_ne_nil {header place : List String} {statements : List Statement} {thing : Thing}
    (written : (place, thing) ∈ writings header statements) : place ≠ [] := by
  induction statements generalizing header with
  | nil => cases written
  | cons statement statements inductionHypothesis =>
      rcases List.mem_cons.mp written with here | behind
      · obtain ⟨rfl, _⟩ := Prod.mk.inj here
        cases statement <;> simp [Statement.place]
      · exact inductionHypothesis behind

namespace Outline

variable {header place : List String} {outline final : Outline} {statement : Statement}
variable {statements : List Statement} {thing : Thing} {value : Value}

/-! One statement. -/

theorem fill_present {made : Origin} {path : List String} (present : outline place = some thing) :
    outline.fill made path place = some thing := by
  simp [fill, present]

theorem fill_absent {made : Origin} {path : List String} (absent : outline place = none)
    (offPath : ¬ place <+: path) : outline.fill made path place = none := by
  simp [fill, absent, offPath]

theorem fill_cases {made : Origin} {path : List String}
    (present : outline.fill made path place = some thing) :
    outline place = some thing ∨ thing = .table made := by
  unfold fill at present
  split at present
  next => exact .inr (Option.some.inj present).symm
  next => exact .inl present

theorem after_place (outline : Outline) (header : List String) (statement : Statement) :
    outline.after header statement (statement.place header) = some statement.thing := by
  cases statement <;> exact if_pos rfl

/-- What a statement does not write stays, unless it begins another table of an array above it. -/
theorem after_kept (present : outline place = some thing) (other : place ≠ statement.place header)
    (kept : statement.thing = .array → ¬ statement.place header <+: place) :
    outline.after header statement place = some thing := by
  cases statement with
  | entry entry => exact (if_neg other).trans (fill_present present)
  | table path key => exact (if_neg other).trans (fill_present present)
  | element path key =>
      have notBelow : ¬ path ++ [key] <+: place := kept rfl
      refine (if_neg other).trans ((if_neg ?_).trans (fill_present present))
      exact fun below => notBelow below.1

theorem after_absent (absent : outline place = none) (apart : ¬ place <+: statement.place header) :
    outline.after header statement place = none := by
  have other : place ≠ statement.place header := by
    rintro rfl
    exact apart List.prefix_rfl
  cases statement with
  | entry entry =>
      refine (if_neg other).trans (fill_absent absent fun onPath => apart ?_)
      rw [Statement.place, ← List.append_assoc]
      exact onPath.trans (List.prefix_append _ _)
  | table path key =>
      exact (if_neg other).trans
        (fill_absent absent fun onPath => apart (onPath.trans (List.prefix_append _ _)))
  | element path key =>
      refine (if_neg other).trans ?_
      unfold clearBelow
      split
      next => rfl
      next =>
        exact fill_absent absent fun onPath => apart (onPath.trans (List.prefix_append _ _))

/-- What stands somewhere behind a statement stood there before, is written by it, or is a table
that it makes on its way. -/
theorem after_cases (present : outline.after header statement place = some thing) :
    outline place = some thing ∨ (place, thing) = (statement.place header, statement.thing) ∨
      ∃ made, thing = .table made := by
  by_cases same : place = statement.place header
  · subst same
    rw [after_place] at present
    exact .inr (.inl (congrArg _ (Option.some.inj present).symm))
  · have filled {made : Origin} {path : List String}
        (present : outline.fill made path place = some thing) :
        outline place = some thing ∨ (place, thing) = (statement.place header, statement.thing) ∨
          ∃ made, thing = .table made :=
      (fill_cases present).imp_right fun made => .inr ⟨_, made⟩
    cases statement with
    | entry entry => exact filled ((if_neg same).symm.trans present)
    | table path key => exact filled ((if_neg same).symm.trans present)
    | element path key =>
        have cleared := (if_neg same).symm.trans present
        unfold clearBelow at cleared
        split at cleared
        next => cases cleared
        next => exact filled cleared

/-- No statement writes where a value stands. -/
theorem Allows.ne_place (allowed : outline.Allows header statement)
    (present : outline place = some (.value value)) : place ≠ statement.place header := by
  rintro rfl
  cases statement with
  | entry entry => exact absurd (present.symm.trans allowed.2.2) (by simp)
  | table path key =>
      rcases allowed.2 with free | implied
      · exact absurd (present.symm.trans free) (by simp)
      · exact absurd (present.symm.trans implied) (by simp)
  | element path key =>
      rcases allowed.2 with free | array
      · exact absurd (present.symm.trans free) (by simp)
      · exact absurd (present.symm.trans array) (by simp)

/-! All statements. -/

namespace Builds

theorem value_kept (builds : Builds header outline statements final)
    (present : outline place = some (.value value))
    (kept : ∀ other, (other, .array) ∈ writings header statements → other <+: place →
      other = place) :
    final place = some (.value value) := by
  induction builds with
  | done => exact present
  | @next header outline statement statements final allowed _ inductionHypothesis =>
      have elsewhere := allowed.ne_place present
      refine inductionHypothesis (after_kept present elsewhere ?_) ?_
      · intro array above
        exact elsewhere (kept _ (array ▸ List.mem_cons_self) above).symm
      · intro other membership
        exact kept other (List.mem_cons_of_mem _ membership)

/-- A value stays where it is written. -/
theorem value_written (builds : Builds header outline statements final)
    (written : (place, .value value) ∈ writings header statements)
    (kept : ∀ other, (other, .array) ∈ writings header statements → other <+: place →
      other = place) :
    final place = some (.value value) := by
  induction builds with
  | done => cases written
  | @next header outline statement statements final allowed builds inductionHypothesis =>
      have keptBehind : ∀ other,
          (other, .array) ∈ writings (statement.headerAfter header) statements →
          other <+: place → other = place :=
        fun other membership => kept other (List.mem_cons_of_mem _ membership)
      rcases List.mem_cons.mp written with here | behind
      · obtain ⟨rfl, same⟩ := Prod.mk.inj here
        refine builds.value_kept ?_ keptBehind
        rw [after_place, same]
      · exact inductionHypothesis behind keptBehind

/-- Where nothing is written, nor anything below, nothing stands. -/
theorem absent (builds : Builds header outline statements final) (absent : outline place = none)
    (apart : ∀ writing ∈ writings header statements, ¬ place <+: writing.1) :
    final place = none := by
  induction builds with
  | done => exact absent
  | @next header outline statement statements final _ _ inductionHypothesis =>
      refine inductionHypothesis (after_absent absent (apart _ List.mem_cons_self)) ?_
      exact fun writing membership => apart writing (List.mem_cons_of_mem _ membership)

/-- What stands somewhere is written there, or is a table that is made on the way. -/
theorem cases_of_present (builds : Builds header outline statements final)
    (present : final place = some thing) :
    outline place = some thing ∨ (place, thing) ∈ writings header statements ∨
      ∃ made, thing = .table made := by
  induction builds with
  | done => exact .inl present
  | @next header outline statement statements final _ _ inductionHypothesis =>
      rcases inductionHypothesis present with before | written | made
      · rcases after_cases before with before | here | made
        · exact .inl before
        · exact .inr (.inl (here ▸ List.mem_cons_self))
        · exact .inr (.inr made)
      · exact .inr (.inl (List.mem_cons_of_mem _ written))
      · exact .inr (.inr made)

end Builds

end Outline

end CertificateAudit.Toml
