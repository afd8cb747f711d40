import Mathlib.Data.List.Forall2

/-!
Readings in sequence: a reading after another, and lists whose items are all read by the same
function.
-/

namespace CertificateAudit

theorem bind_eq_ok_iff {ε α β : Type} {first : Except ε α} {next : α → Except ε β} {result : β} :
    first >>= next = .ok result ↔ ∃ value, first = .ok value ∧ next value = .ok result := by
  cases first with
  | error error => simp [bind, Except.bind]
  | ok value => simp [bind, Except.bind]

variable {α β : Type} {read : α → Option β}

/-- A list is read if every item of it is, and the results stand in the order of the items. -/
theorem mapM_eq_some_iff {items : List α} {results : List β} :
    items.mapM read = some results ↔
      List.Forall₂ (fun item result => read item = some result) items results := by
  induction items generalizing results with
  | nil => simp [eq_comm]
  | cons item items inductionHypothesis =>
      simp only [List.mapM_cons, Option.bind_eq_bind, Option.bind_eq_some_iff,
        inductionHypothesis, Option.pure_def, Option.some.injEq]
      constructor
      · rintro ⟨result, first, others, rest, rfl⟩
        exact .cons first rest
      · rintro (_ | ⟨first, rest⟩)
        exact ⟨_, first, _, rest, rfl⟩

theorem exists_of_mem_mapM {items : List α} {results : List β}
    (reads : items.mapM read = some results) {result : β} (membership : result ∈ results) :
    ∃ item ∈ items, read item = some result := by
  have related := mapM_eq_some_iff.mp reads
  clear reads
  induction related with
  | nil => cases membership
  | cons first rest inductionHypothesis =>
      rcases List.mem_cons.mp membership with rfl | later
      · exact ⟨_, List.mem_cons_self, first⟩
      · obtain ⟨item, inside, found⟩ := inductionHypothesis later
        exact ⟨item, List.mem_cons_of_mem _ inside, found⟩

/-- One item that is not read is enough. -/
theorem mapM_eq_none_of_mem {items : List α} {item : α} (membership : item ∈ items)
    (unread : read item = none) : items.mapM read = none := by
  induction items with
  | nil => cases membership
  | cons first items inductionHypothesis =>
      rw [List.mapM_cons]
      rcases List.mem_cons.mp membership with rfl | later
      · rw [unread]
        rfl
      · rw [inductionHypothesis later]
        cases read first <;> rfl

end CertificateAudit
