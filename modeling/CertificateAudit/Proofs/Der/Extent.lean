import CertificateAudit.Certificate.Container
import CertificateAudit.Proofs.Der.Encoding

/-!
How far readers read. A reader of headers leaves an end of what it is given, and an element of
stated length is its header and its content (`readItem_extent`). What the strict reader cuts out,
the lenient one cuts out too (`readOpenItem_of_readItem`).
-/

namespace CertificateAudit.Der

theorem readTagNumber_suffix {remaining number value : Nat} {bytes rest : List UInt8}
    (done : readTagNumber remaining number bytes = some (value, rest)) : rest <:+ bytes := by
  induction remaining generalizing number bytes with
  | zero => cases done
  | succ remaining inductionHypothesis =>
      cases bytes with
      | nil => cases done
      | cons b bytes =>
          rw [readTagNumber] at done
          split at done
          case isTrue =>
            cases done
            exact List.suffix_cons b _
          case isFalse => exact (inductionHypothesis done).trans (List.suffix_cons b bytes)

theorem readTag_suffix {tag : Tag} {constructed : Bool} {bytes rest : List UInt8}
    (done : readTag bytes = some (tag, constructed, rest)) :
    rest <:+ bytes ∧ rest.length < bytes.length := by
  cases bytes with
  | nil => cases done
  | cons b bytes =>
      have behind : rest <:+ bytes := by
        rw [readTag] at done
        dsimp only at done
        split at done
        case isTrue =>
          obtain ⟨⟨number, after⟩, spelled, done⟩ := Option.bind_eq_some_iff.mp done
          cases done
          exact readTagNumber_suffix spelled
        case isFalse =>
          cases done
          exact List.suffix_rfl
      refine ⟨behind.trans (List.suffix_cons b bytes), ?_⟩
      exact Nat.lt_succ_of_le behind.length_le

theorem readLength_extent {length : Option Nat} {bytes rest : List UInt8}
    (done : readLength bytes = some (length, rest)) :
    rest <:+ bytes ∧ ∀ stated, length = some stated → stated < lengthBound := by
  cases bytes with
  | nil => cases done
  | cons b bytes =>
      rw [readLength] at done
      split at done
      case isTrue =>
        cases done
        refine ⟨List.suffix_cons b _, ?_⟩
        rintro _ ⟨⟩
        exact Nat.lt_trans b.toNat_lt (by decide)
      case isFalse =>
        split at done
        case isTrue =>
          cases done
          refine ⟨List.suffix_cons b _, ?_⟩
          rintro _ ⟨⟩
        case isFalse =>
          split at done
          case isTrue => cases done
          case isFalse =>
            dsimp only at done
            split at done
            case isTrue => cases done
            case isFalse fits =>
              obtain ⟨rfl, rfl⟩ := Prod.mk.inj (Option.some.inj done)
              have behind := List.drop_suffix (b.toNat - 0x80) bytes
              refine ⟨behind.trans (List.suffix_cons b bytes), ?_⟩
              intro stated same
              rw [← Option.some.inj same]
              exact Nat.lt_of_not_le fun large => fits (.inr large)

theorem readHeader_extent {header : Header} {bytes rest : List UInt8}
    (done : readHeader bytes = some (header, rest)) :
    rest <:+ bytes ∧ rest.length < bytes.length ∧
      ∀ stated, header.length = some stated → stated < lengthBound := by
  obtain ⟨⟨tag, constructed, behind⟩, tagRead, done⟩ := Option.bind_eq_some_iff.mp done
  obtain ⟨⟨length, after⟩, lengthRead, done⟩ := Option.bind_eq_some_iff.mp done
  dsimp only at lengthRead done
  split at done
  case isTrue => cases done
  case isFalse =>
    cases done
    obtain ⟨behindTag, shorter⟩ := readTag_suffix tagRead
    obtain ⟨behindLength, bounded⟩ := readLength_extent lengthRead
    exact ⟨behindLength.trans behindTag, Nat.lt_of_le_of_lt behindLength.length_le shorter, bounded⟩

theorem readItem_extent {item : Item} {bytes rest : List UInt8}
    (done : readItem bytes = some (item, rest)) :
    item.content.length < lengthBound ∧
      ∃ header, header ≠ [] ∧ bytes = header ++ item.content ++ rest := by
  obtain ⟨⟨header, body⟩, headerRead, cut⟩ := Option.bind_eq_some_iff.mp done
  obtain ⟨length, stated, cut⟩ := Option.bind_eq_some_iff.mp cut
  obtain ⟨⟨front, spelled⟩, shorter, bounded⟩ := readHeader_extent headerRead
  split at cut
  case isTrue => cases cut
  case isFalse =>
    cases cut
    refine ⟨?_, front, ?_, ?_⟩
    · exact Nat.lt_of_le_of_lt (List.length_take_le _ _) (bounded length stated)
    · rintro rfl
      rw [← spelled] at shorter
      exact Nat.lt_irrefl _ shorter
    · rw [List.append_assoc, List.take_append_drop, spelled]

theorem skipContent_stated {depth length : Nat} {header : Header} {body : List UInt8}
    (stated : header.length = some length) (fits : length ≤ body.length) :
    ∃ isEnd, skipContent (depth + 1) header body = some (isEnd, body.drop length) := by
  rw [skipContent, stated]
  dsimp only
  split
  case isTrue isMarker =>
    rw [isMarker.1]
    exact ⟨true, rfl⟩
  case isFalse => exact ⟨false, if_neg (Nat.not_lt.mpr fits)⟩

theorem readOpenItem_of_readItem {item : Item} {bytes rest : List UInt8}
    (done : readItem bytes = some (item, rest)) : readOpenItem bytes = some (item, rest) := by
  obtain ⟨⟨header, body⟩, headerRead, cut⟩ := Option.bind_eq_some_iff.mp done
  obtain ⟨length, stated, cut⟩ := Option.bind_eq_some_iff.mp cut
  split at cut
  case isTrue => cases cut
  case isFalse present =>
    cases cut
    have fits : length ≤ body.length := Nat.not_lt.mp present
    obtain ⟨isEnd, skipped⟩ : ∃ isEnd, skipContent maxDepth header body =
        some (isEnd, body.drop length) :=
      skipContent_stated stated fits
    have spanned : body.length - (body.drop length).length = length := by
      rw [List.length_drop]
      omega
    simp only [readOpenItem, headerRead, Option.bind_eq_bind, Option.bind_some, skipped, stated,
      spanned]
    rfl

theorem length_of_readOpenItem {item : Item} {bytes rest : List UInt8}
    (done : readOpenItem bytes = some (item, rest)) : item.content.length ≤ bytes.length := by
  obtain ⟨⟨header, body⟩, headerRead, done⟩ := Option.bind_eq_some_iff.mp done
  obtain ⟨⟨isEnd, behind⟩, -, done⟩ := Option.bind_eq_some_iff.mp done
  cases done
  have shorter := (readHeader_extent headerRead).2.1
  dsimp only
  split <;> rw [List.length_take] <;> omega

theorem untilEnd_length_le {step : List UInt8 → Option (Bool × List UInt8)}
    (shorter : ∀ bytes ended rest, step bytes = some (ended, rest) → rest.length ≤ bytes.length)
    {rounds : Nat} {bytes rest : List UInt8} (done : untilEnd step rounds bytes = some rest) :
    rest.length ≤ bytes.length := by
  induction rounds generalizing bytes with
  | zero => cases done
  | succ rounds inductionHypothesis =>
      obtain ⟨⟨ended, behind⟩, stepped, done⟩ := Option.bind_eq_some_iff.mp done
      have first := shorter bytes ended behind stepped
      dsimp only at done
      split at done
      case isTrue =>
        cases done
        exact first
      case isFalse => exact Nat.le_trans (inductionHypothesis done) first

theorem skipContent_length_le {depth : Nat} {header : Header} {bytes rest : List UInt8}
    {isEnd : Bool} (done : skipContent depth header bytes = some (isEnd, rest)) :
    rest.length ≤ bytes.length := by
  induction depth generalizing header bytes rest isEnd with
  | zero => cases done
  | succ depth inductionHypothesis =>
      rw [skipContent] at done
      split at done
      case h_1 length stated =>
        split at done
        case isTrue =>
          cases done
          exact Nat.le_refl _
        case isFalse =>
          split at done
          case isTrue => cases done
          case isFalse =>
            cases done
            rw [List.length_drop]
            exact Nat.sub_le _ _
      case h_2 =>
        obtain ⟨behind, ended, done⟩ := Option.bind_eq_some_iff.mp done
        cases done
        refine untilEnd_length_le ?_ ended
        intro bytes isEnd rest stepped
        obtain ⟨⟨inner, body⟩, headerRead, skipped⟩ := Option.bind_eq_some_iff.mp stepped
        exact Nat.le_trans (inductionHypothesis skipped)
          (Nat.le_of_lt (readHeader_extent headerRead).2.1)

theorem readOpenItem_length_le {item : Item} {bytes rest : List UInt8}
    (done : readOpenItem bytes = some (item, rest)) : rest.length ≤ bytes.length := by
  obtain ⟨⟨header, body⟩, headerRead, done⟩ := Option.bind_eq_some_iff.mp done
  obtain ⟨⟨isEnd, behind⟩, skipped, done⟩ := Option.bind_eq_some_iff.mp done
  cases done
  exact Nat.le_trans (skipContent_length_le skipped)
    (Nat.le_of_lt (readHeader_extent headerRead).2.1)

theorem readContainer_eq_some_iff {number : Nat} {bytes content rest : List UInt8} :
    readContainer number bytes = some (content, rest) ↔
      ∃ item, readItem bytes = some (item, rest) ∧ item.tag.number = number ∧
        item.content = content := by
  constructor
  · intro done
    obtain ⟨⟨item, behind⟩, cut, done⟩ := Option.bind_eq_some_iff.mp done
    dsimp only at done
    split at done
    case isTrue tagged =>
      cases done
      exact ⟨item, cut, tagged, rfl⟩
    case isFalse => cases done
  · rintro ⟨item, cut, tagged, rfl⟩
    simp [readContainer, cut, tagged]

theorem readContainer_extent {number : Nat} {bytes content rest : List UInt8}
    (done : readContainer number bytes = some (content, rest)) :
    content.length < lengthBound ∧
      ∃ header, header ≠ [] ∧ bytes = header ++ content ++ rest := by
  obtain ⟨item, cut, -, rfl⟩ := readContainer_eq_some_iff.mp done
  exact readItem_extent cut

/-! Reading as long as it goes. -/

section

variable {α : Type} {read : List UInt8 → Option (α × List UInt8)}

/-- Every value that is read takes bytes. -/
def Progresses (read : List UInt8 → Option (α × List UInt8)) : Prop :=
  ∀ bytes value rest, read bytes = some (value, rest) → rest.length < bytes.length

theorem Progresses.read_nil (progresses : Progresses read) : read [] = none := by
  rw [Option.eq_none_iff_forall_ne_some]
  rintro ⟨value, rest⟩ done
  exact Nat.not_lt_zero _ (progresses [] value rest done)

theorem Progresses.length_readMany_le (progresses : Progresses read) (rounds : Nat)
    (bytes : List UInt8) : (readMany read rounds bytes).2.length ≤ bytes.length := by
  induction rounds generalizing bytes with
  | zero => exact Nat.le_refl _
  | succ rounds inductionHypothesis =>
      rw [readMany]
      split
      next => exact Nat.le_refl _
      next value rest first =>
        calc (readMany read rounds rest).2.length
          _ ≤ rest.length := inductionHypothesis rest
          _ ≤ bytes.length := Nat.le_of_lt (progresses bytes value rest first)

/-- Nothing is left exactly if everything can be read. -/
theorem Progresses.readMany_eq_nil_iff (progresses : Progresses read) (rounds : Nat)
    (bytes : List UInt8) :
    (readMany read rounds bytes).2 = [] ↔ (readAll read rounds bytes).isSome := by
  induction rounds generalizing bytes with
  | zero => cases bytes <;> simp [readMany, readAll]
  | succ rounds inductionHypothesis =>
      cases bytes with
      | nil => simp [readMany, readAll, progresses.read_nil]
      | cons b bytes =>
          simp only [readMany, readAll]
          cases read (b :: bytes) with
          | none => simp
          | some first =>
              dsimp only [Option.bind_eq_bind, Option.bind_some]
              rw [inductionHypothesis first.2]
              cases readAll read rounds first.2 <;> simp

end

end CertificateAudit.Der
