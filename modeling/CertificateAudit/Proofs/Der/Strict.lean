import CertificateAudit.Proofs.Der.Encoding

/-!
The strict encoding: every tag is one byte and every length is stated in its shortest spelling.
A byte string is read strictly exactly if it is what writing gives: for lengths
(`readShortLength_eq_some_iff`), for single elements (`readStrict_eq_some_iff`), and for elements
inside elements (`Tree.decode_eq_some_iff`).
-/

namespace CertificateAudit.Der

/-! Lengths. -/

/-- A length has at most 126 bytes of its own. -/
def longestLength : Nat := 126

theorem unsigned_lt (bytes : List UInt8) : unsigned bytes < 256 ^ bytes.length := by
  induction bytes using List.reverseRecOn with
  | nil => exact Nat.one_pos
  | append_singleton bytes b inductionHypothesis =>
      have last := b.toNat_lt
      rw [unsigned_concat, List.length_append, List.length_singleton, Nat.pow_succ]
      omega

/-- Without a leading zero byte a byte string is the spelling of its number. -/
theorem bigEndian_unsigned {bytes : List UInt8} (short : bytes.head? ≠ some 0) :
    bigEndian (unsigned bytes) = bytes := by
  rw [← trimZeros_eq_bigEndian, trimZeros]
  cases bytes with
  | nil => rfl
  | cons b bytes =>
      refine List.dropWhile_cons_of_neg ?_
      rw [beq_iff_eq]
      rintro rfl
      exact short rfl

theorem head?_bigEndian (n : Nat) : (bigEndian n).head? ≠ some 0 := by
  have noZero := List.head?_dropWhile_not (· == (0 : UInt8)) (bigEndian n)
  have trimmed : (bigEndian n).dropWhile (· == 0) = bigEndian n := by
    rw [← trimZeros, trimZeros_eq_bigEndian, unsigned_bigEndian]
  rw [trimmed] at noZero
  intro zero
  rw [zero] at noZero
  cases noZero

/-- Read a length in its shortest spelling. -/
def readShortLength : List UInt8 → Option (Nat × List UInt8)
  | [] => none
  | b :: rest =>
      if b < 0x80 then some (b.toNat, rest)
      else
        let count := b.toNat - 0x80
        let bytes := rest.take count
        if longestLength < count ∨ rest.length < count ∨ bytes.head? = some 0 ∨
            unsigned bytes < 128 then none
        else some (unsigned bytes, rest.drop count)

/-- The first byte of a length that takes bytes of its own. -/
theorem firstByte_spec : ∀ count ≤ longestLength,
    ¬ UInt8.ofNat (0x80 + count) < 0x80 ∧
      (UInt8.ofNat (0x80 + count)).toNat - 0x80 = count := by
  decide

theorem readShortLength_encodeLength {length : Nat} (bounded : length < 256 ^ longestLength)
    (rest : List UInt8) :
    readShortLength (encodeLength length ++ rest) = some (length, rest) := by
  unfold encodeLength
  split
  case isTrue short =>
    obtain ⟨value, isShort⟩ := ofNat_short short
    rw [List.singleton_append, readShortLength, if_pos isShort, value]
  case isFalse long =>
    have few : (bigEndian length).length ≤ longestLength := length_bigEndian_le bounded
    obtain ⟨notShort, count⟩ := firstByte_spec _ few
    have fits : ¬ (longestLength < (bigEndian length).length ∨
        (bigEndian length ++ rest).length < (bigEndian length).length ∨
        (bigEndian length).head? = some 0 ∨ length < 128) := by
      rw [List.length_append]
      rintro (many | missing | zero | short)
      · omega
      · omega
      · exact head?_bigEndian length zero
      · exact long short
    simp only [List.cons_append, readShortLength, if_neg notShort, count, List.take_left,
      List.drop_left, unsigned_bigEndian, if_neg fits]

theorem readShortLength_eq_some_iff {bytes rest : List UInt8} {length : Nat} :
    readShortLength bytes = some (length, rest) ↔
      length < 256 ^ longestLength ∧ bytes = encodeLength length ++ rest := by
  constructor
  · intro read
    cases bytes with
    | nil => cases read
    | cons b behind =>
        rw [readShortLength] at read
        split at read
        case isTrue short =>
          cases read
          have small : b.toNat < 128 := UInt8.lt_iff_toNat_lt.mp short
          refine ⟨?_, ?_⟩
          · calc b.toNat
              _ < 256 ^ 1 := b.toNat_lt
              _ ≤ 256 ^ longestLength := Nat.pow_le_pow_right (by decide) (by decide)
          · rw [encodeLength, if_pos small, UInt8.ofNat_toNat]
            rfl
        case isFalse long =>
          dsimp only at read
          split at read
          case isTrue => cases read
          case isFalse fits =>
            obtain ⟨rfl, rfl⟩ := Prod.mk.inj (Option.some.inj read)
            simp only [not_or] at fits
            obtain ⟨few, present, noZero, notShort⟩ := fits
            have count : (behind.take (b.toNat - 0x80)).length = b.toNat - 0x80 := by
              rw [List.length_take]
              omega
            refine ⟨?_, ?_⟩
            · calc unsigned (behind.take (b.toNat - 0x80))
                _ < 256 ^ (behind.take (b.toNat - 0x80)).length := unsigned_lt _
                _ ≤ 256 ^ longestLength := by
                    apply Nat.pow_le_pow_right (by decide)
                    omega
            · have first : 0x80 + (b.toNat - 0x80) = b.toNat := by
                have large : ¬ b.toNat < 128 := fun small => long (UInt8.lt_iff_toNat_lt.mpr small)
                omega
              rw [encodeLength, if_neg notShort]
              simp only [bigEndian_unsigned noZero, count, first, UInt8.ofNat_toNat,
                List.cons_append, List.take_append_drop]
  · rintro ⟨bounded, rfl⟩
    exact readShortLength_encodeLength bounded rest

/-! Elements. -/

/-- Read one element: its tag byte and its content. -/
def readStrict : List UInt8 → Option ((UInt8 × List UInt8) × List UInt8)
  | [] => none
  | tagByte :: bytes =>
      if tagByte.toNat % 32 = 31 then none
      else do
        let (length, rest) ← readShortLength bytes
        if rest.length < length then none
        else some ((tagByte, rest.take length), rest.drop length)

/-- What can be written and read back strictly: a whole tag, and content that is not too long. -/
def IsStrict (tagByte : UInt8) (content : List UInt8) : Prop :=
  IsWholeTag tagByte ∧ content.length < 256 ^ longestLength

theorem readStrict_eq_some_iff {bytes content rest : List UInt8} {tagByte : UInt8} :
    readStrict bytes = some ((tagByte, content), rest) ↔
      IsStrict tagByte content ∧ bytes = encode tagByte content ++ rest := by
  constructor
  · intro read
    cases bytes with
    | nil => cases read
    | cons first behind =>
        rw [readStrict] at read
        split at read
        case isTrue => cases read
        case isFalse whole =>
          obtain ⟨⟨length, after⟩, stated, read⟩ := Option.bind_eq_some_iff.mp read
          dsimp only at read
          split at read
          case isTrue => cases read
          case isFalse present =>
            cases read
            obtain ⟨bounded, rfl⟩ := readShortLength_eq_some_iff.mp stated
            have count : (after.take length).length = length := by
              rw [List.length_take]
              omega
            refine ⟨⟨whole, ?_⟩, ?_⟩
            · rw [count]
              exact bounded
            · rw [encode, count, List.cons_append, List.append_assoc, List.take_append_drop]
  · rintro ⟨⟨whole, bounded⟩, rfl⟩
    have present : ¬ (content ++ rest).length < content.length := by simp
    have lowNumber : ¬ tagByte.toNat % 32 = 31 := whole
    simp only [encode, List.cons_append, List.append_assoc, readStrict, if_neg lowNumber,
      readShortLength_encodeLength bounded, Option.bind_eq_bind, Option.bind_some,
      if_neg present, List.take_left, List.drop_left]

/-- A reader that reads nothing but what is written reads nothing but what is written in all. -/
theorem readAll_sound {α : Type} {read : List UInt8 → Option (α × List UInt8)}
    {write : α → List UInt8} {valid : α → Prop}
    (sound : ∀ bytes value rest, read bytes = some (value, rest) →
      valid value ∧ bytes = write value ++ rest) {rounds : Nat} {bytes : List UInt8}
    {values : List α} (done : readAll read rounds bytes = some values) :
    (∀ value ∈ values, valid value) ∧ bytes = values.flatMap write := by
  induction rounds generalizing bytes values with
  | zero =>
      cases bytes with
      | nil =>
          cases done
          exact ⟨fun _ absent => absurd absent List.not_mem_nil, rfl⟩
      | cons b bytes => cases done
  | succ rounds inductionHypothesis =>
      cases bytes with
      | nil =>
          cases done
          exact ⟨fun _ absent => absurd absent List.not_mem_nil, rfl⟩
      | cons b bytes =>
          obtain ⟨⟨value, rest⟩, first, done⟩ := Option.bind_eq_some_iff.mp done
          obtain ⟨others, later, done⟩ := Option.bind_eq_some_iff.mp done
          cases done
          obtain ⟨isValid, spelled⟩ := sound _ _ _ first
          obtain ⟨areValid, rfl⟩ := inductionHypothesis later
          refine ⟨?_, spelled⟩
          intro other membership
          rcases List.mem_cons.mp membership with rfl | membership
          · exact isValid
          · exact areValid other membership

/-! Elements inside elements. -/

/-- An element, looked into as far as elements are made of elements. -/
inductive Tree where
  | primitive (tagByte : UInt8) (content : List UInt8)
  | constructed (tagByte : UInt8) (parts : List Tree)

namespace Tree

mutual

def encode : Tree → List UInt8
  | .primitive tagByte content => Der.encode tagByte content
  | .constructed tagByte parts => Der.encode tagByte (encodeAll parts)

def encodeAll : List Tree → List UInt8
  | [] => []
  | part :: parts => encode part ++ encodeAll parts

end

/-- Read an element, at most so many levels deep. -/
def read : (depth : Nat) → List UInt8 → Option (Tree × List UInt8)
  | 0, _ => none
  | depth + 1, bytes => do
      let ((tagByte, content), rest) ← readStrict bytes
      if isConstructed tagByte then
        let parts ← readAll (read depth) content.length content
        pure (.constructed tagByte parts, rest)
      else pure (.primitive tagByte content, rest)

/-- Read a byte string that is one element and nothing else. -/
def decode (bytes : List UInt8) : Option Tree :=
  match read bytes.length bytes with
  | some (tree, []) => some tree
  | _ => none

/-- The tags say which elements are made of elements, and everything can be read strictly. -/
inductive IsStrict : Tree → Prop where
  | primitive {tagByte content} :
      isConstructed tagByte = false → Der.IsStrict tagByte content →
      IsStrict (.primitive tagByte content)
  | constructed {tagByte parts} :
      isConstructed tagByte = true → Der.IsStrict tagByte (encodeAll parts) →
      (∀ part ∈ parts, IsStrict part) → IsStrict (.constructed tagByte parts)

theorem encodeAll_eq_flatMap (parts : List Tree) : encodeAll parts = parts.flatMap encode := by
  induction parts with
  | nil => rfl
  | cons part parts inductionHypothesis =>
      rw [encodeAll, inductionHypothesis, List.flatMap_cons]

theorem length_encode_pos (tree : Tree) : 0 < tree.encode.length := by
  cases tree <;> simp [encode, Der.encode]

/-- By induction on the depth: the parts of an element are shorter than it. -/
theorem read_encode {depth : Nat} {tree : Tree} (strict : tree.IsStrict)
    (deep : tree.encode.length ≤ depth) (rest : List UInt8) :
    read depth (tree.encode ++ rest) = some (tree, rest) := by
  induction depth generalizing tree rest with
  | zero => exact absurd tree.length_encode_pos (Nat.not_lt.mpr deep)
  | succ depth inductionHypothesis =>
      cases strict with
      | @primitive tagByte content leaf strict =>
          have first : readStrict (Der.encode tagByte content ++ rest) =
              some ((tagByte, content), rest) :=
            readStrict_eq_some_iff.mpr ⟨strict, rfl⟩
          simp [read, encode, first, leaf]
      | @constructed tagByte parts inner strict each =>
          have first : readStrict (Der.encode tagByte (encodeAll parts) ++ rest) =
              some ((tagByte, encodeAll parts), rest) :=
            readStrict_eq_some_iff.mpr ⟨strict, rfl⟩
          have undoes : ∀ part ∈ parts, ∀ rest,
              read depth (part.encode ++ rest) = some (part, rest) := by
            intro part membership rest
            refine inductionHypothesis (each part membership) ?_ rest
            have shorter : part.encode.length ≤ (parts.flatMap encode).length :=
              length_le_flatMap membership
            simp only [encode, Der.encode, encodeAll_eq_flatMap, List.length_cons,
              List.length_append] at deep
            omega
          have others : readAll (read depth) (encodeAll parts).length (encodeAll parts) =
              some parts := by
            have nonempty : ∀ part ∈ parts, part.encode ≠ [] :=
              fun part _ => List.length_pos_iff.mp part.length_encode_pos
            rw [encodeAll_eq_flatMap, readAll_flatMap undoes nonempty (Nat.le_refl _),
              List.map_id']
          simp [read, encode, first, inner, others]

theorem read_sound {depth : Nat} {bytes rest : List UInt8} {tree : Tree}
    (done : read depth bytes = some (tree, rest)) :
    tree.IsStrict ∧ bytes = tree.encode ++ rest := by
  induction depth generalizing bytes rest tree with
  | zero => cases done
  | succ depth inductionHypothesis =>
      obtain ⟨⟨⟨tagByte, content⟩, behind⟩, first, inside⟩ := Option.bind_eq_some_iff.mp done
      obtain ⟨strict, spelled⟩ := readStrict_eq_some_iff.mp first
      dsimp only at inside
      split at inside
      case isTrue inner =>
        obtain ⟨parts, others, inside⟩ := Option.bind_eq_some_iff.mp inside
        cases inside
        obtain ⟨each, rfl⟩ := readAll_sound
          (fun _ _ _ done => inductionHypothesis done) others
        rw [← encodeAll_eq_flatMap] at strict spelled
        exact ⟨.constructed inner strict each, spelled⟩
      case isFalse leaf =>
        cases inside
        exact ⟨.primitive (Bool.eq_false_iff.mpr leaf) strict, spelled⟩

/-- What is read strictly as a tree is the one way of writing it. -/
theorem decode_eq_some_iff {bytes : List UInt8} {tree : Tree} :
    decode bytes = some tree ↔ tree.IsStrict ∧ bytes = tree.encode := by
  constructor
  · intro done
    unfold decode at done
    split at done
    next whole =>
      cases done
      obtain ⟨strict, same⟩ := read_sound whole
      rw [List.append_nil] at same
      exact ⟨strict, same⟩
    next => cases done
  · rintro ⟨strict, rfl⟩
    have whole := read_encode strict (Nat.le_refl _) []
    rw [List.append_nil] at whole
    rw [decode, whole]

/-- A tree that can be decoded and takes so many bytes at most. -/
structure FitsIn (size : Nat) (tree : Tree) : Prop where
  strict : tree.IsStrict
  short : tree.encode.length ≤ size

section

variable {tagByte : UInt8} {size : Nat}

theorem lt_pow_longestLength (bounded : size < 256 ^ 9) : size < 256 ^ longestLength :=
  Nat.lt_of_lt_of_le bounded (Nat.pow_le_pow_right (by decide) (by decide))

theorem length_encode_add_le {content : List UInt8} (short : content.length ≤ size)
    (bounded : size < 256 ^ 9) : (Der.encode tagByte content).length ≤ size + 11 := by
  have counted : (Der.encode tagByte content).length ≤ content.length + 9 + 2 := by
    apply length_encode_le
    omega
  omega

theorem FitsIn.primitive {content : List UInt8}
    (tagged : isConstructed tagByte = false ∧ IsWholeTag tagByte)
    (short : content.length ≤ size) (bounded : size < 256 ^ 9) :
    FitsIn (size + 11) (.primitive tagByte content) where
  strict := by
    apply IsStrict.primitive tagged.1
    exact ⟨tagged.2, lt_pow_longestLength (Nat.lt_of_le_of_lt short bounded)⟩
  short := by
    rw [encode]
    exact length_encode_add_le short bounded

theorem FitsIn.constructed {parts : List Tree}
    (tagged : isConstructed tagByte = true ∧ IsWholeTag tagByte)
    (strict : ∀ part ∈ parts, part.IsStrict) (short : (encodeAll parts).length ≤ size)
    (bounded : size < 256 ^ 9) : FitsIn (size + 11) (.constructed tagByte parts) where
  strict := by
    apply IsStrict.constructed tagged.1
    · exact ⟨tagged.2, lt_pow_longestLength (Nat.lt_of_le_of_lt short bounded)⟩
    · exact strict
  short := by
    rw [encode]
    exact length_encode_add_le short bounded

/-- A single part, enclosed. -/
theorem FitsIn.enclose {part : Tree}
    (tagged : isConstructed tagByte = true ∧ IsWholeTag tagByte) (fits : FitsIn size part)
    (bounded : size < 256 ^ 9) : FitsIn (size + 11) (.constructed tagByte [part]) := by
  apply FitsIn.constructed tagged
  · intro other membership
    rw [List.mem_singleton.mp membership]
    exact fits.strict
  · rw [encodeAll, encodeAll, List.append_nil]
    exact fits.short
  · exact bounded

end

end Tree

end CertificateAudit.Der
