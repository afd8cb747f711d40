import CertificateAudit.Text.Blank

/-!
Cutting at separators and joining with them. A list is cut at every separator; pieces without one
come back from their joined text (`splitOn_joinWith`), so the text determines them.
-/

namespace CertificateAudit.Text

theorem splitOn_of_not_mem {α : Type} [DecidableEq α] {separator : α} {piece : List α}
    (absent : separator ∉ piece) : splitOn separator piece = [piece] := by
  induction piece with
  | nil => rfl
  | cons c rest inductionHypothesis =>
      simp only [List.mem_cons, not_or] at absent
      rw [splitOn, if_neg (Ne.symm absent.1), inductionHypothesis absent.2]

theorem splitOn_ne_nil {α : Type} [DecidableEq α] (separator : α) (list : List α) :
    splitOn separator list ≠ [] := by
  cases list with
  | nil => exact List.cons_ne_nil _ _
  | cons c rest =>
      unfold splitOn
      split
      · exact List.cons_ne_nil _ _
      · split <;> exact List.cons_ne_nil _ _

theorem splitOn_append_cons {α : Type} [DecidableEq α] (separator : α) (front back : List α) :
    splitOn separator (front ++ separator :: back) =
      splitOn separator front ++ splitOn separator back := by
  induction front with
  | nil => simp [splitOn]
  | cons c rest inductionHypothesis =>
      simp only [List.cons_append, splitOn, inductionHypothesis]
      split
      case isTrue => rfl
      case isFalse =>
        cases pieces : splitOn separator rest with
        | nil => exact absurd pieces (splitOn_ne_nil separator rest)
        | cons piece pieces => rfl

/-- What is appended without a separator goes to the last piece. -/
theorem exists_splitOn_append {α : Type} [DecidableEq α] (separator : α) (front : List α) :
    ∃ pieces last, ∀ back, separator ∉ back →
      splitOn separator (front ++ back) = pieces ++ [last ++ back] := by
  induction front with
  | nil =>
      refine ⟨[], [], ?_⟩
      intro back absent
      exact splitOn_of_not_mem absent
  | cons c rest inductionHypothesis =>
      obtain ⟨pieces, last, split⟩ := inductionHypothesis
      by_cases cut : c = separator
      · refine ⟨[] :: pieces, last, ?_⟩
        intro back absent
        simp [splitOn, cut, split back absent]
      · cases pieces with
        | nil =>
            refine ⟨[], c :: last, ?_⟩
            intro back absent
            simp [splitOn, cut, split back absent]
        | cons piece pieces =>
            refine ⟨(c :: piece) :: pieces, last, ?_⟩
            intro back absent
            simp [splitOn, cut, split back absent]

/-- A list is cut in one way only at its last separator. -/
theorem append_cons_inj_of_not_mem {α : Type} {separator : α} {front other back last : List α}
    (absent : separator ∉ back) (otherAbsent : separator ∉ last)
    (same : front ++ separator :: back = other ++ separator :: last) :
    front = other ∧ back = last := by
  rcases List.append_eq_append_iff.mp same with ⟨between, rfl, split⟩ | ⟨between, rfl, split⟩
  · cases between with
    | nil => exact ⟨(List.append_nil front).symm, (List.cons.inj split).2⟩
    | cons c between =>
        have behind := (List.cons.inj split).2
        exact absurd (behind ▸ List.mem_append_right _ List.mem_cons_self) absent
  · cases between with
    | nil => exact ⟨List.append_nil other, (List.cons.inj split).2.symm⟩
    | cons c between =>
        have behind := (List.cons.inj split).2
        exact absurd (behind ▸ List.mem_append_right _ List.mem_cons_self) otherAbsent

/-- A list is cut in one way only at its first separator. -/
theorem cons_append_inj_of_not_mem {α : Type} {separator : α} {front other back last : List α}
    (absent : separator ∉ front) (otherAbsent : separator ∉ other)
    (same : front ++ separator :: back = other ++ separator :: last) :
    front = other ∧ back = last := by
  have reversed : back.reverse ++ separator :: front.reverse =
      last.reverse ++ separator :: other.reverse := by
    simpa using congrArg List.reverse same
  obtain ⟨backs, fronts⟩ := append_cons_inj_of_not_mem (mt List.mem_reverse.mp absent)
    (mt List.mem_reverse.mp otherAbsent) reversed
  exact ⟨List.reverse_inj.mp fronts, List.reverse_inj.mp backs⟩

/-- A list is cut in one way only where two different separators first stand together. -/
theorem append_pair_inj_of_not_infix {α : Type} {separator next : α} (differs : separator ≠ next)
    {front other back last : List α} (absent : ¬ [separator, next] <:+: front)
    (otherAbsent : ¬ [separator, next] <:+: other)
    (same : front ++ separator :: next :: back = other ++ separator :: next :: last) :
    front = other ∧ back = last := by
  have crossed {c : α} {front back last : List α} (absent : ¬ [separator, next] <:+: c :: front) :
      c :: front ++ separator :: next :: back ≠ separator :: next :: last := by
    intro same
    obtain ⟨rfl, behind⟩ := List.cons.inj same
    cases front with
    | nil => exact differs (List.cons.inj behind).1
    | cons c front =>
        obtain ⟨rfl, _⟩ := List.cons.inj behind
        exact absent ⟨[], front, rfl⟩
  induction front generalizing other with
  | nil =>
      cases other with
      | nil => exact ⟨rfl, (List.cons.inj (List.cons.inj same).2).2⟩
      | cons c other => exact absurd same.symm (crossed otherAbsent)
  | cons c front inductionHypothesis =>
      cases other with
      | nil => exact absurd same (crossed absent)
      | cons c other =>
          obtain ⟨rfl, behind⟩ := List.cons.inj same
          have shorter {front : List α} (absent : ¬ [separator, next] <:+: c :: front) :
              ¬ [separator, next] <:+: front :=
            fun inside => absent (List.infix_cons inside)
          obtain ⟨rfl, rfl⟩ := inductionHypothesis (shorter absent) (shorter otherAbsent) behind
          exact ⟨rfl, rfl⟩

/-- Pieces without the separator come back from the joined text. -/
theorem splitOn_joinWith {separator : Char} {pieces : List String} (given : pieces ≠ [])
    (whole : ∀ piece ∈ pieces, separator ∉ piece.toList) :
    splitOn separator (joinWith separator.toString pieces).toList =
      pieces.map String.toList := by
  fun_induction joinWith separator.toString pieces with
  | case1 => exact absurd rfl given
  | case2 piece =>
      rw [splitOn_of_not_mem (whole piece List.mem_cons_self)]
      rfl
  | case3 piece pieces more inductionHypothesis =>
      have others : ∀ piece ∈ pieces, separator ∉ piece.toList :=
        fun other membership => whole other (List.mem_cons_of_mem piece membership)
      have cut : (piece ++ separator.toString ++ joinWith separator.toString pieces).toList =
          piece.toList ++ separator :: (joinWith separator.toString pieces).toList := by
        simp
      rw [cut, splitOn_append_cons, splitOn_of_not_mem (whole piece List.mem_cons_self),
        inductionHypothesis more others]
      rfl

theorem not_mem_joinWith {c : Char} {separator : String} {pieces : List String}
    (noSeparator : c ∉ separator.toList) (noPiece : ∀ piece ∈ pieces, c ∉ piece.toList) :
    c ∉ (joinWith separator pieces).toList := by
  fun_induction joinWith separator pieces with
  | case1 => simp
  | case2 piece => exact noPiece piece List.mem_cons_self
  | case3 piece pieces more inductionHypothesis =>
      have others := inductionHypothesis fun other membership =>
        noPiece other (List.mem_cons_of_mem piece membership)
      simp [noPiece piece List.mem_cons_self, noSeparator, others]

end CertificateAudit.Text
