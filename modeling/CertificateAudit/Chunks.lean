/-!
Lists cut into pieces of one length, of which only the last may be shorter.
-/

namespace CertificateAudit

/-- Cut a list into pieces of `size + 1` elements; the last one holds what is left. -/
def chunksOfSucc {α : Type} (size : Nat) (values : List α) : List (List α) :=
  match values with
  | [] => []
  | value :: rest => (value :: rest.take size) :: chunksOfSucc size (rest.drop size)
termination_by values.length
decreasing_by simp only [List.length_drop, List.length_cons]; omega

@[simp]
theorem chunksOfSucc_nil {α : Type} (size : Nat) :
    chunksOfSucc size ([] : List α) = [] := by
  rw [chunksOfSucc]

@[simp]
theorem chunksOfSucc_cons {α : Type} (size : Nat) (value : α) (rest : List α) :
    chunksOfSucc size (value :: rest) =
      (value :: rest.take size) :: chunksOfSucc size (rest.drop size) := by
  rw [chunksOfSucc]

/-- The pieces put together again are the list. -/
@[simp]
theorem flatten_chunksOfSucc {α : Type} (size : Nat) (values : List α) :
    (chunksOfSucc size values).flatten = values := by
  fun_induction chunksOfSucc size values with
  | case1 => rfl
  | case2 value rest inductionHypothesis =>
      rw [List.flatten_cons, inductionHypothesis, List.cons_append, List.take_append_drop]

theorem chunksOfSucc_eq_nil_iff {α : Type} {size : Nat} {values : List α} :
    chunksOfSucc size values = [] ↔ values = [] := by
  fun_cases chunksOfSucc size values <;> simp

theorem length_of_mem_chunksOfSucc {α : Type} {size : Nat} {values piece : List α}
    (membership : piece ∈ chunksOfSucc size values) :
    1 ≤ piece.length ∧ piece.length ≤ size + 1 := by
  fun_induction chunksOfSucc size values with
  | case1 => cases membership
  | case2 value rest inductionHypothesis =>
      rcases List.mem_cons.mp membership with rfl | later
      · simp only [List.length_cons, List.length_take]
        omega
      · exact inductionHypothesis later

theorem length_of_mem_dropLast_chunksOfSucc {α : Type} {size : Nat} {values piece : List α}
    (membership : piece ∈ (chunksOfSucc size values).dropLast) : piece.length = size + 1 := by
  fun_induction chunksOfSucc size values with
  | case1 => cases membership
  | case2 value rest inductionHypothesis =>
      by_cases last : chunksOfSucc size (rest.drop size) = []
      · rw [last] at membership
        cases membership
      · rw [List.dropLast_cons_of_ne_nil last] at membership
        rw [chunksOfSucc_eq_nil_iff, List.drop_eq_nil_iff] at last
        rcases List.mem_cons.mp membership with rfl | later
        · simp only [List.length_cons, List.length_take]
          omega
        · exact inductionHypothesis later

end CertificateAudit
