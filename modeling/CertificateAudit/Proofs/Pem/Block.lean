import CertificateAudit.Pem.Block

/-!
Finding the parts of a PEM block. A marker is found behind any text without its first character,
which for all markers is a dash; so labels, gaps and data without dashes come out as they stand
between the markers (`frame?_append`).
-/

namespace CertificateAudit.Pem

open CertificateAudit.Text

theorem findFrom_append {marker expected : List Char} (seen rest : List Char)
    (more : expected ≠ []) :
    findFrom marker expected seen (expected ++ rest) =
      some (((expected.dropLast.reverse ++ seen).drop (marker.length - 1)).reverse, rest) := by
  induction expected generalizing seen with
  | nil => exact absurd rfl more
  | cons c expected inductionHypothesis =>
      by_cases last : expected = []
      · subst last
        simp [findFrom]
      · have open_ : expected.isEmpty = false := by simp [last]
        rw [List.cons_append, findFrom, if_pos rfl, open_, inductionHypothesis (c :: seen) last,
          List.dropLast_cons_of_ne_nil last]
        simp

section Marker

variable {first : Char} {others front : List Char}

theorem findFrom_skip (absent : first ∉ front) (seen rest : List Char) :
    findFrom (first :: others) (first :: others) seen (front ++ rest) =
      findFrom (first :: others) (first :: others) (front.reverse ++ seen) rest := by
  induction front generalizing seen with
  | nil => rfl
  | cons c front inductionHypothesis =>
      simp only [List.mem_cons, not_or] at absent
      rw [List.cons_append, findFrom, if_neg (Ne.symm absent.1), inductionHypothesis absent.2]
      simp

theorem cutAt?_append (absent : first ∉ front) (rest : List Char) :
    cutAt? (first :: others) (front ++ (first :: others ++ rest)) = some (front, rest) := by
  rw [cutAt?, findFrom_skip absent, findFrom_append _ _ (List.cons_ne_nil first others)]
  simp

theorem cutAt?_eq_none (absent : first ∉ front) : cutAt? (first :: others) front = none := by
  have skipped := @findFrom_skip first others front absent [] []
  rw [List.append_nil] at skipped
  rw [cutAt?, skipped]
  rfl

end Marker

/-- Lines, each with the line feed that ends it. -/
def unlines (pieces : List (List Char)) : List Char :=
  pieces.flatMap fun piece => piece ++ ['\n']

/-- Neither in the middle of lines nor just behind one is there a blank line. -/
theorem findFrom_unlines {pieces : List (List Char)}
    (proper : ∀ piece ∈ pieces, piece ≠ [] ∧ '\n' ∉ piece) (seen : List Char) :
    findFrom ['\n', '\n'] ['\n', '\n'] seen (unlines pieces) = none ∧
      findFrom ['\n', '\n'] ['\n'] seen (unlines pieces) = none := by
  induction pieces generalizing seen with
  | nil => exact ⟨rfl, rfl⟩
  | cons piece pieces inductionHypothesis =>
      obtain ⟨filled, absent⟩ := proper piece List.mem_cons_self
      have others := inductionHypothesis fun other membership =>
        proper other (List.mem_cons_of_mem piece membership)
      have grown : unlines (piece :: pieces) = piece ++ '\n' :: unlines pieces := by
        simp [unlines]
      -- Behind the rest of a line comes its line feed, and then the line after it.
      have behind {rest : List Char} (absent : '\n' ∉ rest) (seen : List Char) :
          findFrom ['\n', '\n'] ['\n', '\n'] seen (rest ++ '\n' :: unlines pieces) = none := by
        rw [findFrom_skip absent, findFrom, if_pos rfl]
        exact (others _).2
      refine ⟨?_, ?_⟩
      · rw [grown]
        exact behind absent seen
      · cases piece with
        | nil => exact absurd rfl filled
        | cons c piece =>
            simp only [List.mem_cons, not_or] at absent
            rw [grown, List.cons_append, findFrom, if_neg (Ne.symm absent.1)]
            exact behind absent.2 _

theorem splitHeaders_unlines {pieces : List (List Char)}
    (proper : ∀ piece ∈ pieces, piece ≠ [] ∧ '\n' ∉ piece ∧ '\r' ∉ piece) :
    splitHeaders (unlines pieces) = ([], unlines pieces) := by
  have noBlankLine : cutAt? "\n\n".toList (unlines pieces) = none :=
    (findFrom_unlines (fun piece membership =>
      ⟨(proper piece membership).1, (proper piece membership).2.1⟩) []).1
  have noReturn : '\r' ∉ unlines pieces := by
    intro membership
    obtain ⟨piece, isPiece, within⟩ := List.mem_flatMap.mp membership
    rcases List.mem_append.mp within with inside | feed
    · exact (proper piece isPiece).2.2 inside
    · cases List.mem_singleton.mp feed
  have noReturnLine : cutAt? "\r\n\r\n".toList (unlines pieces) = none := cutAt?_eq_none noReturn
  simp only [splitHeaders, noBlankLine, noReturnLine]

/-- The parts of a block come out as they stand between the markers, and what surrounds the
block does not matter. -/
theorem frame?_append {front label gap payload last : List Char} (noDash : '-' ∉ front)
    (noDashLabel : '-' ∉ label) (isGaps : ∀ c ∈ gap, isGap c = true)
    (noGap : ∀ c ∈ payload.head?, isGap c = false) (noDashPayload : '-' ∉ payload)
    (noDashLast : '-' ∉ last) (behind : List Char) :
    frame? (front ++ (beginMarker ++ (label ++ (dashes ++ (gap ++ (payload ++
      (endMarker ++ (last ++ (dashes ++ behind))))))))) = some (label, payload, last) := by
  have payloadFirst : (gap ++ (payload ++ (endMarker ++ (last ++ (dashes ++ behind))))).dropWhile
      isGap = payload ++ (endMarker ++ (last ++ (dashes ++ behind))) := by
    rw [List.dropWhile_append_of_pos isGaps]
    cases payload with
    | nil => rfl
    | cons c payload =>
        have isNone : isGap c = false := noGap c rfl
        simp [isNone]
  have begins : cutAt? beginMarker (front ++ (beginMarker ++ (label ++ (dashes ++ (gap ++
      (payload ++ (endMarker ++ (last ++ (dashes ++ behind))))))))) = some (front, _) :=
    cutAt?_append noDash _
  have labels : cutAt? dashes (label ++ (dashes ++ (gap ++ (payload ++ (endMarker ++ (last ++
      (dashes ++ behind))))))) = some (label, _) := cutAt?_append noDashLabel _
  have pays : cutAt? endMarker (payload ++ (endMarker ++ (last ++ (dashes ++ behind)))) =
      some (payload, _) := cutAt?_append noDashPayload _
  have ends : cutAt? dashes (last ++ (dashes ++ behind)) = some (last, _) :=
    cutAt?_append noDashLast _
  simp only [frame?, begins, labels, payloadFirst, pays, ends, Option.bind_eq_bind,
    Option.bind_some, Option.pure_def]

end CertificateAudit.Pem
