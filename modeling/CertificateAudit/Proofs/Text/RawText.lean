import CertificateAudit.Proofs.Text.Utf8
import CertificateAudit.Text.RawText

/-!
Raw text that spells a text, and ASCII characters in its bytes. A text is read back from its
spelling and from nothing else (`RawText.text?_eq_some_iff`). Bytes below 0x80 stand for themselves
wherever they are found (`mem_encode_iff`).
-/

namespace CertificateAudit.Text

namespace Utf8

/-- A byte below 0x80 is in no sequence but its own. -/
theorem SpellsCode.eq_of_mem {n : Nat} {b : UInt8} {bytes : List UInt8}
    (spells : SpellsCode n bytes) (membership : b ∈ bytes) (ascii : b.toNat < 0x80) :
    bytes = [b] ∧ n = b.toNat := by
  cases spells with
  | one small =>
      obtain rfl := List.mem_singleton.mp membership
      exact ⟨rfl, rfl⟩
  | two lowest highest second =>
      unfold Continues at second
      simp only [List.mem_cons, List.not_mem_nil, or_false] at membership
      rcases membership with rfl | rfl <;> omega
  | three lowest highest second long surrogate third =>
      unfold Continues at second third
      simp only [List.mem_cons, List.not_mem_nil, or_false] at membership
      rcases membership with rfl | rfl | rfl <;> omega
  | four lowest highest second long last third fourth =>
      unfold Continues at second third fourth
      simp only [List.mem_cons, List.not_mem_nil, or_false] at membership
      rcases membership with rfl | rfl | rfl | rfl <;> omega

section Ascii

variable {c : Char} (ascii : c.toNat < 0x80)
include ascii

theorem utf8EncodeChar_of_ascii : String.utf8EncodeChar c = [UInt8.ofNat c.toNat] := by
  have one : c.val.toNat ≤ 0x7f := Nat.le_of_lt_succ ascii
  rw [String.utf8EncodeChar, if_pos one]
  rfl

theorem mem_utf8EncodeChar_iff {d : Char} :
    UInt8.ofNat c.toNat ∈ String.utf8EncodeChar d ↔ d = c := by
  have value : (UInt8.ofNat c.toNat).toNat = c.toNat :=
    toNat_ofNat_of_lt (Nat.lt_trans ascii (by decide))
  constructor
  · intro membership
    have code := ((spellsCode_utf8EncodeChar d).eq_of_mem membership (by omega)).2
    rw [value] at code
    exact Char.toNat_inj.mp code
  · rintro rfl
    rw [utf8EncodeChar_of_ascii ascii]
    exact List.mem_singleton_self _

theorem mem_encode_iff {text : List Char} :
    UInt8.ofNat c.toNat ∈ encode text ↔ c ∈ text := by
  rw [encode, List.mem_flatMap]
  constructor
  · rintro ⟨d, membership, inside⟩
    rwa [← (mem_utf8EncodeChar_iff ascii).mp inside]
  · exact fun membership => ⟨c, membership, (mem_utf8EncodeChar_iff ascii).mpr rfl⟩

/-- Lenient reading finds it only where its byte is. -/
theorem mem_of_mem_scan {bytes : List UInt8} (found : some c ∈ scan none bytes) :
    UInt8.ofNat c.toNat ∈ bytes := by
  generalize read : scan none bytes = items at found
  induction items generalizing bytes with
  | nil => cases found
  | cons item items inductionHypothesis =>
      cases item with
      | none =>
          obtain ⟨front, rest, rfl, behind⟩ := exists_of_scan_eq_none read
          have later := (List.mem_cons.mp found).resolve_left nofun
          exact List.mem_append_right front (inductionHypothesis behind later)
      | some d =>
          obtain ⟨n, front, rest, spells, rfl, rfl, behind⟩ := exists_of_scan read
          rcases List.mem_cons.mp found with same | later
          · have front := (mem_utf8EncodeChar_iff ascii).mpr (Option.some.inj same).symm
            rw [spells.encode_eq] at front
            exact List.mem_append_left rest front
          · exact List.mem_append_right front (inductionHypothesis behind later)

end Ascii

theorem length_le_length_encode (text : List Char) : text.length ≤ (encode text).length := by
  induction text with
  | nil => exact Nat.le_refl 0
  | cons c text inductionHypothesis =>
      have single : 0 < (String.utf8EncodeChar c).length := by
        rw [String.length_utf8EncodeChar]
        exact c.utf8Size_pos
      rw [encode, List.flatMap_cons, ← encode, List.length_append, List.length_cons]
      omega

theorem encode_injective {text other : List Char} (same : encode text = encode other) :
    text = other :=
  Option.some.inj ((decode?_eq_some_iff.mpr rfl).symm.trans (decode?_eq_some_iff.mpr same))

end Utf8

namespace RawText

theorem bytes_append (front back : RawText) : (front ++ back).bytes = front.bytes ++ back.bytes :=
  rfl

theorem append_assoc (front middle back : RawText) :
    front ++ middle ++ back = front ++ (middle ++ back) :=
  congrArg RawText.mk (List.append_assoc front.bytes middle.bytes back.bytes)

theorem append_left_cancel {front back other : RawText} (same : front ++ back = front ++ other) :
    back = other := by
  obtain ⟨bytes⟩ := back
  obtain ⟨bytes'⟩ := other
  exact congrArg RawText.mk (List.append_cancel_left (RawText.mk.inj same))

theorem ofText_append (front back : String) :
    ofText (front ++ back) = ofText front ++ ofText back := by
  rw [ofText, String.toList_append, Utf8.encode, List.flatMap_append]
  rfl

theorem ofText_inj {text other : String} : ofText text = ofText other ↔ text = other := by
  refine ⟨?_, congrArg ofText⟩
  intro same
  exact String.toList_inj.mp (Utf8.encode_injective (RawText.mk.inj same))

/-- The bytes spell a text. -/
def IsText (raw : RawText) : Prop :=
  ∃ text, raw = ofText text

/-- Only the spelling of a text is read as it. -/
theorem text?_eq_some_iff {raw : RawText} {text : String} :
    raw.text? = some text ↔ raw = ofText text := by
  rw [text?, Utf8.text?, Option.map_eq_some_iff]
  constructor
  · rintro ⟨read, given, rfl⟩
    rw [ofText, String.toList_ofList, ← Utf8.decode?_eq_some_iff.mp given]
  · rintro rfl
    exact ⟨text.toList, Utf8.decode?_eq_some_iff.mpr rfl, String.ofList_toList⟩

theorem text?_ofText (text : String) : (ofText text).text? = some text :=
  text?_eq_some_iff.mpr rfl

theorem isText_iff {raw : RawText} : raw.IsText ↔ raw.text?.isSome = true := by
  simp only [IsText, ← text?_eq_some_iff, Option.isSome_iff_exists]

instance (raw : RawText) : Decidable raw.IsText :=
  decidable_of_iff _ isText_iff.symm

theorem isText_append {front back : RawText} (isFront : front.IsText) (isBack : back.IsText) :
    (front ++ back).IsText := by
  obtain ⟨text, rfl⟩ := isFront
  obtain ⟨other, rfl⟩ := isBack
  exact ⟨text ++ other, (ofText_append text other).symm⟩

theorem shown_ofText (text : String) : (ofText text).shown = text := by
  rw [shown, ofText, Utf8.decodeLossy_encode, String.ofList_toList]

end RawText

end CertificateAudit.Text
