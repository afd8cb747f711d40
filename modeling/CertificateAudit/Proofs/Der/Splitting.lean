import CertificateAudit.Proofs.Der.Strict

/-!
Encodings come apart in one way only. An encoded element tells its tag byte and its content and
where it ends, whatever follows; so no encoding is the front of another one
(`encode_append_inj`), and a run of encodings is a run of only one list of elements
(`flatMap_encode_inj`). The octets of its length are the only shortest ones
(`isShortestLength_iff`, `length_encodeLength_le`).
-/

namespace CertificateAudit.Der

/-! Tags. -/

def TagClass.bits : TagClass → UInt8
  | .universal => 0x00
  | .application => 0x40
  | .contextSpecific => 0x80
  | .privateUse => 0xc0

def Item.tagByte (item : Item) : UInt8 :=
  item.tag.cls.bits + (if item.constructed then 0x20 else 0x00) + UInt8.ofNat item.tag.number

theorem Item.tagByte_of (tagByte : UInt8) (content : List UInt8) :
    (Item.of tagByte content).tagByte = tagByte := by
  have each : ∀ n < 256, (TagClass.ofByte (UInt8.ofNat n)).bits +
      (if isConstructed (UInt8.ofNat n) then 0x20 else 0x00) +
        UInt8.ofNat ((UInt8.ofNat n).toNat % 32) = UInt8.ofNat n := by
    decide +kernel
  have own := each tagByte.toNat tagByte.toNat_lt
  rwa [UInt8.ofNat_toNat] at own

/-! Lengths. -/

/-- The octets state the length in the one way of the strict encoding: a length below 128 in one
byte, any other as the byte 0x80 plus a count, and so many bytes of which the first is not zero. -/
inductive IsShortestLength (length : Nat) : List UInt8 → Prop where
  | short {b : UInt8} :
      length < 128 → b.toNat = length → IsShortestLength length [b]
  | long {first : UInt8} {bytes : List UInt8} :
      128 ≤ length → first.toNat = 0x80 + bytes.length → bytes.head? ≠ some 0 →
      unsigned bytes = length → IsShortestLength length (first :: bytes)

section

variable {length : Nat} {octets : List UInt8}

theorem isShortestLength_iff (bounded : length < 256 ^ longestLength) :
    IsShortestLength length octets ↔ octets = encodeLength length := by
  constructor
  · intro shortest
    cases shortest with
    | short small stated => rw [encodeLength, if_pos small, ← stated, UInt8.ofNat_toNat]
    | @long first bytes large counted noZero stated =>
        rw [encodeLength, if_neg (Nat.not_lt.mpr large), ← stated]
        simp only [bigEndian_unsigned noZero, ← counted, UInt8.ofNat_toNat]
  · rintro rfl
    unfold encodeLength
    split
    case isTrue small => exact .short small (ofNat_short small).1
    case isFalse large =>
      have few : (bigEndian length).length ≤ longestLength := length_bigEndian_le bounded
      refine .long (Nat.not_lt.mp large) ?_ (head?_bigEndian length) (unsigned_bigEndian length)
      apply UInt8.toNat_ofNat_of_lt'
      unfold longestLength at few
      exact Nat.lt_of_le_of_lt (Nat.add_le_add_left few 0x80) (by decide)

/-- A length of bytes of its own is spelled by what is left of any spelling of it without the
leading zeros. -/
theorem encodeLength_of_unsigned {bytes : List UInt8} (large : 128 ≤ unsigned bytes) :
    encodeLength (unsigned bytes) =
      UInt8.ofNat (0x80 + (trimZeros bytes).length) :: trimZeros bytes := by
  rw [encodeLength, if_neg (Nat.not_lt.mpr large), trimZeros_eq_bigEndian]

theorem trimZeros_eq_self {bytes : List UInt8} (long : bytes.length ≤ (trimZeros bytes).length) :
    trimZeros bytes = bytes :=
  (List.dropWhile_suffix _).eq_of_length_le long

theorem readLength_eq_some {b : UInt8} {rest : List UInt8}
    (read : readLength (b :: rest) = some (some length, [])) :
    (length < 128 ∧ b.toNat = length ∧ rest = []) ∨
      (0 < rest.length ∧ b.toNat = 0x80 + rest.length ∧ unsigned rest = length) := by
  rw [readLength] at read
  split at read
  case isTrue short =>
    cases read
    exact .inl ⟨UInt8.lt_iff_toNat_lt.mp short, rfl, rfl⟩
  case isFalse long =>
    split at read
    case isTrue => cases read
    case isFalse notOpen =>
      split at read
      case isTrue => cases read
      case isFalse =>
        dsimp only at read
        split at read
        case isTrue => cases read
        case isFalse fits =>
          obtain ⟨stated, whole⟩ := Prod.mk.inj (Option.some.inj read)
          have large : ¬ b.toNat < 0x80 := fun short => long (UInt8.lt_iff_toNat_lt.mpr short)
          have positive : b.toNat ≠ 0x80 := fun same => notOpen (UInt8.toNat_inj.mp same)
          have counted : rest.length = b.toNat - 0x80 :=
            Nat.le_antisymm (List.drop_eq_nil_iff.mp whole) (Nat.not_lt.mp (not_or.mp fits).1)
          rw [← counted, List.take_length] at stated
          refine .inr ⟨?_, ?_, Option.some.inj stated⟩ <;> omega

/-- Of all octets that are read as a length none are fewer than those that are written, and no
others are as few. -/
theorem length_encodeLength_le (read : readLength octets = some (some length, [])) :
    (encodeLength length).length ≤ octets.length ∧
      (octets.length = (encodeLength length).length → octets = encodeLength length) := by
  cases octets with
  | nil => cases read
  | cons b rest =>
      rcases readLength_eq_some read with ⟨small, rfl, rfl⟩ | ⟨given, counted, rfl⟩
      · have written : encodeLength b.toNat = [b] := by
          rw [encodeLength, if_pos small, UInt8.ofNat_toNat]
        rw [written]
        exact ⟨Nat.le_refl _, fun _ => rfl⟩
      · by_cases small : unsigned rest < 128
        · have single : (encodeLength (unsigned rest)).length = 1 := by
            rw [encodeLength, if_pos small, List.length_singleton]
          rw [single, List.length_cons]
          exact ⟨by omega, by omega⟩
        · rw [encodeLength_of_unsigned (Nat.not_lt.mp small), List.length_cons, List.length_cons]
          refine ⟨Nat.succ_le_succ (List.dropWhile_suffix _).length_le, ?_⟩
          intro same
          rw [trimZeros_eq_self (Nat.le_of_succ_le_succ (Nat.le_of_eq same)), ← counted,
            UInt8.ofNat_toNat]

end

/-! Elements. -/

/-- What can be written and read back: a tag of one byte, and content whose length fits 64 bits. -/
structure IsReadable (tagByte : UInt8) (content : List UInt8) : Prop where
  whole : IsWholeTag tagByte
  bounded : content.length < lengthBound

section

variable {tagByte tagByte' : UInt8} {content content' rest rest' : List UInt8}

theorem IsReadable.isStrict (readable : IsReadable tagByte content) :
    IsStrict tagByte content :=
  ⟨readable.whole, Tree.lt_pow_longestLength (Nat.lt_trans readable.bounded (by decide))⟩

theorem readStrict_encode (readable : IsReadable tagByte content) (rest : List UInt8) :
    readStrict (encode tagByte content ++ rest) = some ((tagByte, content), rest) :=
  readStrict_eq_some_iff.mpr ⟨readable.isStrict, rfl⟩

/-- An encoding and what follows it tell where the encoding ends. -/
theorem encode_append_inj (readable : IsReadable tagByte content)
    (readable' : IsReadable tagByte' content')
    (same : encode tagByte content ++ rest = encode tagByte' content' ++ rest') :
    tagByte = tagByte' ∧ content = content' ∧ rest = rest' := by
  have read := readStrict_encode readable rest
  rw [same, readStrict_encode readable' rest'] at read
  cases read
  exact ⟨rfl, rfl, rfl⟩

end

/-- A run of encodings tells the elements in it. -/
theorem flatMap_encode_inj {items items' : List (UInt8 × List UInt8)}
    (readable : ∀ item ∈ items, IsReadable item.1 item.2)
    (readable' : ∀ item ∈ items', IsReadable item.1 item.2)
    (same : (items.flatMap fun item => encode item.1 item.2) =
      items'.flatMap fun item => encode item.1 item.2) : items = items' := by
  have comesApart {items : List (UInt8 × List UInt8)}
      (readable : ∀ item ∈ items, IsReadable item.1 item.2) :
      readAll readStrict (items.flatMap fun item => encode item.1 item.2).length
        (items.flatMap fun item => encode item.1 item.2) = some (items.map id) :=
    readAll_flatMap (fun item membership rest => readStrict_encode (readable item membership) rest)
      (fun _ _ => List.cons_ne_nil _ _) (Nat.le_refl _)
  have read := comesApart readable
  rw [same, comesApart readable'] at read
  simpa using (Option.some.inj read).symm

/-- The encoding is free of prefixes and as short as can be. Of an encoded element with a tag of
one byte, and of whatever follows it, the header and the element are read exactly as they were
written, and what follows is left. The octets between its tag byte and its content are the only
ones that state the length as the strict encoding does, and the only ones as few of all that are
read as the length. Two encodings with anything behind them are the same only if their tag bytes,
their contents and what is behind them are; and two runs of encodings are the same only if they are
runs of the same elements. -/
theorem encodings_split_uniquely :
    (∀ tagByte content rest, IsReadable tagByte content →
      readHeader (encode tagByte content ++ rest) =
        some (⟨⟨.ofByte tagByte, tagByte.toNat % 32⟩, isConstructed tagByte,
          some content.length⟩, content ++ rest) ∧
      readItem (encode tagByte content ++ rest) = some (.of tagByte content, rest) ∧
      (Item.of tagByte content).tagByte = tagByte) ∧
    (∀ tagByte content, IsReadable tagByte content →
      ∃ octets, encode tagByte content = tagByte :: (octets ++ content) ∧
        (∀ other, IsShortestLength content.length other ↔ other = octets) ∧
        ∀ other, readLength other = some (some content.length, []) →
          octets.length ≤ other.length ∧ (other.length = octets.length → other = octets)) ∧
    (∀ tagByte content tagByte' content' rest rest', IsReadable tagByte content →
      IsReadable tagByte' content' →
      encode tagByte content ++ rest = encode tagByte' content' ++ rest' →
      tagByte = tagByte' ∧ content = content' ∧ rest = rest') ∧
    ∀ items items' : List (UInt8 × List UInt8), (∀ item ∈ items, IsReadable item.1 item.2) →
      (∀ item ∈ items', IsReadable item.1 item.2) →
      (items.flatMap fun item => encode item.1 item.2) =
        (items'.flatMap fun item => encode item.1 item.2) → items = items' := by
  refine ⟨?_, ?_, ?_, ?_⟩
  · intro tagByte content rest readable
    refine ⟨?_, ?_, Item.tagByte_of tagByte content⟩
    · exact readHeader_encode readable.whole readable.bounded rest
    · exact readItem_encode readable.whole readable.bounded rest
  · intro tagByte content readable
    refine ⟨encodeLength content.length, rfl, ?_, ?_⟩
    · exact fun other => isShortestLength_iff readable.isStrict.2
    · exact fun other read => length_encodeLength_le read
  · exact fun _ _ _ _ _ _ => encode_append_inj
  · exact fun _ _ => flatMap_encode_inj

/-- Content of 300 bytes takes three octets for its length. -/
theorem encodings_split_uniquely_long :
    IsReadable 0x04 (List.replicate 300 0x2a) ∧
    encode 0x04 (List.replicate 300 0x2a) =
      0x04 :: ([0x82, 0x01, 0x2c] ++ List.replicate 300 0x2a) ∧
    readItem (0x04 :: ([0x82, 0x01, 0x2c] ++ List.replicate 300 0x2a) ++ [0x05, 0x00]) =
      some (.of 0x04 (List.replicate 300 0x2a), [0x05, 0x00]) := by
  have readable : IsReadable 0x04 (List.replicate 300 0x2a) := by
    refine ⟨by decide, ?_⟩
    rw [List.length_replicate]
    decide
  have shortest : IsShortestLength (List.replicate 300 (0x2a : UInt8)).length
      [0x82, 0x01, 0x2c] := by
    rw [List.length_replicate]
    exact .long (by decide) rfl (by decide) rfl
  obtain ⟨octets, written, only, _⟩ := encodings_split_uniquely.2.1 _ _ readable
  rw [← (only _).mp shortest] at written
  refine ⟨readable, written, ?_⟩
  rw [← written]
  exact (encodings_split_uniquely.1 _ _ _ readable).2.1

end CertificateAudit.Der
