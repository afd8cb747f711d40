import CertificateAudit.Der.Item
import CertificateAudit.Proofs.Der.Number

/-!
Reading undoes writing, whatever follows: for lengths, for headers with a tag of one byte, and
for single elements and runs of them with their content left as bytes.
-/

namespace CertificateAudit.Der

def lengthBound : Nat := 18446744073709551616

/-- The first byte of a length that takes bytes of its own, of which there are one to eight. -/
theorem longForm_spec : ∀ count ≤ 8, 0 < count →
    ¬ UInt8.ofNat (0x80 + count) < 0x80 ∧ UInt8.ofNat (0x80 + count) ≠ 0x80 ∧
      UInt8.ofNat (0x80 + count) ≠ 0xff ∧
      (UInt8.ofNat (0x80 + count)).toNat - 0x80 = count := by
  decide

theorem ofNat_short {length : Nat} (short : length < 128) :
    (UInt8.ofNat length).toNat = length ∧ UInt8.ofNat length < 0x80 := by
  have small : length < 2 ^ 8 := by omega
  have value : (UInt8.ofNat length).toNat = length := UInt8.toNat_ofNat_of_lt' small
  refine ⟨value, ?_⟩
  rw [UInt8.lt_iff_toNat_lt, value]
  exact short

theorem length_lt_encode (tagByte : UInt8) (content : List UInt8) :
    content.length < (encode tagByte content).length := by
  simp only [encode, List.length_cons, List.length_append]
  omega

theorem length_encode_le {tagByte : UInt8} {content : List UInt8} {size : Nat}
    (bounded : content.length < 256 ^ size) :
    (encode tagByte content).length ≤ content.length + size + 2 := by
  have few := length_bigEndian_le bounded
  rw [encode, encodeLength]
  split
  case isTrue =>
      simp only [List.length_cons, List.length_append, List.length_nil]
      omega
  case isFalse =>
      simp only [List.length_cons, List.length_append]
      omega

theorem readLength_encodeLength {length : Nat} (bounded : length < lengthBound)
    (rest : List UInt8) : readLength (encodeLength length ++ rest) = some (some length, rest) := by
  unfold encodeLength
  split
  case isTrue short =>
      obtain ⟨value, isShort⟩ := ofNat_short short
      simp only [List.singleton_append, readLength, isShort, if_true, value]
  case isFalse long =>
      have someBytes : 0 < (bigEndian length).length := by
        rw [List.length_pos_iff]
        intro empty
        apply long
        rw [bigEndian_eq_nil_iff.mp empty]
        decide
      obtain ⟨notShort, notOpen, notReserved, count⟩ :=
        longForm_spec _ (length_bigEndian_le bounded) someBytes
      have fits : ¬ ((bigEndian length ++ rest).length < (bigEndian length).length ∨
          18446744073709551616 ≤ length) := by
        rw [List.length_append]
        unfold lengthBound at bounded
        omega
      simp only [List.cons_append, readLength, notShort, notOpen, notReserved, if_false, count,
        List.take_left, List.drop_left, unsigned_bigEndian, fits]

def Item.of (tagByte : UInt8) (content : List UInt8) : Item where
  tag := ⟨.ofByte tagByte, tagByte.toNat % 32⟩
  constructed := isConstructed tagByte
  content := content

/-- A tag byte that leaves no more of the tag to come. -/
def IsWholeTag (tagByte : UInt8) : Prop := tagByte.toNat % 32 ≠ 31

instance (tagByte : UInt8) : Decidable (IsWholeTag tagByte) :=
  inferInstanceAs (Decidable (_ ≠ _))

section

variable {tagByte : UInt8} {content : List UInt8}

theorem readHeader_encode (whole : IsWholeTag tagByte) (bounded : content.length < lengthBound)
    (rest : List UInt8) :
    readHeader (encode tagByte content ++ rest) =
      some (⟨(Item.of tagByte content).tag, isConstructed tagByte, some content.length⟩,
        content ++ rest) := by
  have tagRead : readTag (encode tagByte content ++ rest) =
      some ((Item.of tagByte content).tag, isConstructed tagByte,
        encodeLength content.length ++ (content ++ rest)) := by
    have lowNumber : tagByte.toNat % 32 ≠ 31 := whole
    simp only [encode, List.cons_append, List.append_assoc, readTag, lowNumber, if_false, Item.of]
  simp [readHeader, tagRead, readLength_encodeLength bounded]

theorem readItem_encode (whole : IsWholeTag tagByte) (bounded : content.length < lengthBound)
    (rest : List UInt8) :
    readItem (encode tagByte content ++ rest) = some (.of tagByte content, rest) := by
  simp [readItem, readHeader_encode whole bounded, Item.of]

/-- Content of stated length is passed over, also if it is none and looks like an end marker. -/
theorem skipContent_append (tag : Tag) (constructed : Bool) (depth : Nat)
    (content rest : List UInt8) :
    ∃ isEnd, skipContent (depth + 1) ⟨tag, constructed, some content.length⟩ (content ++ rest) =
      some (isEnd, rest) := by
  simp only [skipContent]
  split
  case isTrue isMarker =>
      have empty : content = [] := List.length_eq_zero_iff.mp isMarker.1
      exact ⟨true, by rw [empty, List.nil_append]⟩
  case isFalse =>
      have fits : ¬ (content ++ rest).length < content.length := by simp
      exact ⟨false, by rw [if_neg fits, List.drop_left]⟩

theorem readOpenItem_encode (whole : IsWholeTag tagByte)
    (bounded : content.length < lengthBound) (rest : List UInt8) :
    readOpenItem (encode tagByte content ++ rest) = some (.of tagByte content, rest) := by
  obtain ⟨isEnd, skipped⟩ := skipContent_append (Item.of tagByte content).tag
    (isConstructed tagByte) 49 content rest
  have spanned : (content ++ rest).length - rest.length = content.length := by simp
  simp only [readOpenItem, readHeader_encode whole bounded, Option.bind_eq_bind,
    Option.bind_some]
  rw [maxDepth, skipped]
  simp only [Option.bind_some, spanned, List.take_left, Item.of]
  rfl

end

/-- What is written for one value is not longer than what is written for all of them. -/
theorem length_le_flatMap {β : Type} {write : β → List UInt8} {source : β} {sources : List β}
    (membership : source ∈ sources) :
    (write source).length ≤ (sources.flatMap write).length := by
  induction sources with
  | nil => cases membership
  | cons head sources inductionHypothesis =>
      rw [List.flatMap_cons, List.length_append]
      rcases List.mem_cons.mp membership with rfl | later
      · exact Nat.le_add_right _ _
      · exact Nat.le_trans (inductionHypothesis later) (Nat.le_add_left _ _)

/-- A reader that undoes the writing of each value undoes the writing of all of them. -/
theorem readAll_flatMap {α β : Type} {read : List UInt8 → Option (α × List UInt8)}
    {write : β → List UInt8} {value : β → α} {sources : List β}
    (undoes : ∀ source ∈ sources, ∀ rest, read (write source ++ rest) = some (value source, rest))
    (nonempty : ∀ source ∈ sources, write source ≠ []) {rounds : Nat}
    (enough : (sources.flatMap write).length ≤ rounds) :
    readAll read rounds (sources.flatMap write) = some (sources.map value) := by
  induction sources generalizing rounds with
  | nil => simp [readAll]
  | cons source sources inductionHypothesis =>
      obtain ⟨b, bytes, spelled⟩ :=
        List.exists_cons_of_ne_nil (nonempty source List.mem_cons_self)
      rw [List.flatMap_cons, spelled, List.cons_append, List.length_cons,
        List.length_append] at enough
      cases rounds with
      | zero => exact absurd enough (Nat.not_succ_le_zero _)
      | succ rounds =>
          have first := undoes source List.mem_cons_self (sources.flatMap write)
          have others : readAll read rounds (sources.flatMap write) =
              some (sources.map value) := by
            apply inductionHypothesis
            · exact fun other membership => undoes other (List.mem_cons_of_mem source membership)
            · exact fun other membership =>
                nonempty other (List.mem_cons_of_mem source membership)
            · omega
          rw [List.flatMap_cons]
          rw [spelled, List.cons_append] at first ⊢
          simp [readAll, first, others]

end CertificateAudit.Der
