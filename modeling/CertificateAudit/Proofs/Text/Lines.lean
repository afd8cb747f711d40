import CertificateAudit.Proofs.Text.Pieces
import CertificateAudit.Proofs.Text.RawText

/-!
Lines of running text. Texts that are written one after the other, each with a line feed behind
it, are as many lines as there are texts and line feeds inside them (`length_linesOf_unlines`), so
they come back as the lines if and only if each is one line (`linesOf_unlines_eq_iff`).
-/

namespace CertificateAudit.Text

def lineFeeds (text : String) : Nat :=
  text.toList.count '\n'

/-- A text without line feeds. -/
def IsOneLine (text : String) : Prop :=
  lineFeeds text = 0

instance (text : String) : Decidable (IsOneLine text) :=
  inferInstanceAs (Decidable (_ = _))

def lineFeedsIn : List String → Nat
  | [] => 0
  | text :: texts => lineFeeds text + lineFeedsIn texts

/-- The texts one after the other, each with a line feed behind it. -/
def unlines : List String → String
  | [] => ""
  | text :: texts => text ++ "\n" ++ unlines texts

/-- What stands in front of each line feed, up to the one before. -/
def linesOf (text : String) : List String :=
  (splitOn '\n' text.toList).dropLast.map String.ofList

theorem isOneLine_iff {text : String} : IsOneLine text ↔ '\n' ∉ text.toList :=
  List.count_eq_zero

theorem lineFeeds_append (front back : String) :
    lineFeeds (front ++ back) = lineFeeds front + lineFeeds back := by
  rw [lineFeeds, String.toList_append, List.count_append]
  rfl

theorem IsOneLine.lineFeeds_append_left {front : String} (single : IsOneLine front)
    (back : String) : lineFeeds (front ++ back) = lineFeeds back := by
  rw [lineFeeds_append, single, Nat.zero_add]

theorem IsOneLine.lineFeeds_append_right {back : String} (single : IsOneLine back)
    (front : String) : lineFeeds (front ++ back) = lineFeeds front := by
  rw [lineFeeds_append, single, Nat.add_zero]

theorem IsOneLine.append {front back : String} (single : IsOneLine front)
    (other : IsOneLine back) : IsOneLine (front ++ back) := by
  rw [IsOneLine, single.lineFeeds_append_left, other]

def RawText.IsOneLine (raw : RawText) : Prop :=
  0x0a ∉ raw.bytes

instance (raw : RawText) : Decidable raw.IsOneLine :=
  inferInstanceAs (Decidable (_ ∉ _))

theorem RawText.isOneLine_ofText {text : String} (single : Text.IsOneLine text) :
    (RawText.ofText text).IsOneLine :=
  mt (Utf8.mem_encode_iff (by decide : '\n'.toNat < 0x80)).mp (isOneLine_iff.mp single)

theorem RawText.IsOneLine.append {front back : RawText} (single : front.IsOneLine)
    (other : back.IsOneLine) : (front ++ back).IsOneLine := by
  rw [RawText.IsOneLine, RawText.bytes_append, List.mem_append]
  exact not_or.mpr ⟨single, other⟩

theorem RawText.IsOneLine.shown {raw : RawText} (single : raw.IsOneLine) :
    Text.IsOneLine raw.shown := by
  rw [isOneLine_iff, RawText.shown, String.toList_ofList]
  intro found
  obtain ⟨item, scanned, same⟩ := List.mem_map.mp found
  cases item with
  | none => cases same
  | some c =>
      rw [Option.getD_some] at same
      subst same
      exact single (Utf8.mem_of_mem_scan (by decide) scanned)

theorem lineFeedsIn_append (texts others : List String) :
    lineFeedsIn (texts ++ others) = lineFeedsIn texts + lineFeedsIn others := by
  induction texts with
  | nil => exact (Nat.zero_add _).symm
  | cons text texts inductionHypothesis =>
      rw [List.cons_append, lineFeedsIn, lineFeedsIn, inductionHypothesis, Nat.add_assoc]

theorem lineFeedsIn_eq_zero_iff {texts : List String} :
    lineFeedsIn texts = 0 ↔ ∀ text ∈ texts, IsOneLine text := by
  induction texts with
  | nil => exact iff_of_true rfl fun _ membership => absurd membership List.not_mem_nil
  | cons text texts inductionHypothesis =>
      rw [lineFeedsIn, Nat.add_eq_zero_iff, inductionHypothesis, List.forall_mem_cons]
      rfl

theorem unlines_append (texts others : List String) :
    unlines (texts ++ others) = unlines texts ++ unlines others := by
  induction texts with
  | nil => exact String.empty_append.symm
  | cons text texts inductionHypothesis =>
      rw [List.cons_append, unlines, unlines, inductionHypothesis, ← String.append_assoc]

theorem length_splitOn {α : Type} [DecidableEq α] (separator : α) (list : List α) :
    (splitOn separator list).length = list.count separator + 1 := by
  induction list with
  | nil => rfl
  | cons c rest inductionHypothesis =>
      unfold splitOn
      split
      case isTrue same =>
        rw [same, List.count_cons_self, List.length_cons, inductionHypothesis]
      case isFalse differs =>
        rw [List.count_cons_of_ne differs, ← inductionHypothesis]
        split
        case h_1 none => exact absurd none (splitOn_ne_nil separator rest)
        case h_2 pieces => rw [pieces]; rfl

theorem linesOf_cons (text : String) (texts : List String) :
    linesOf (unlines (text :: texts)) =
      (splitOn '\n' text.toList).map String.ofList ++ linesOf (unlines texts) := by
  have cut : (unlines (text :: texts)).toList =
      text.toList ++ '\n' :: (unlines texts).toList := by
    simp [unlines]
  rw [linesOf, cut, splitOn_append_cons,
    List.dropLast_append_of_ne_nil (splitOn_ne_nil '\n' (unlines texts).toList), List.map_append]
  rfl

/-- Every line feed inside a text makes a line more. -/
theorem length_linesOf_unlines (texts : List String) :
    (linesOf (unlines texts)).length = texts.length + lineFeedsIn texts := by
  induction texts with
  | nil => rfl
  | cons text texts inductionHypothesis =>
      rw [linesOf_cons, List.length_append, inductionHypothesis, List.length_map, length_splitOn,
        List.length_cons, lineFeedsIn, lineFeeds]
      omega

theorem linesOf_unlines_eq_iff {texts : List String} :
    linesOf (unlines texts) = texts ↔ ∀ text ∈ texts, IsOneLine text := by
  constructor
  · intro same
    have long := length_linesOf_unlines texts
    rw [same] at long
    exact lineFeedsIn_eq_zero_iff.mp (by omega)
  · intro single
    induction texts with
    | nil => rfl
    | cons text texts inductionHypothesis =>
        rw [List.forall_mem_cons] at single
        rw [linesOf_cons, splitOn_of_not_mem (isOneLine_iff.mp single.1),
          inductionHypothesis single.2]
        simp

end CertificateAudit.Text
