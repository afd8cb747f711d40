import CertificateAudit.Der.Element
import CertificateAudit.Proofs.Der.Clock
import CertificateAudit.Proofs.Der.Encoding

/-!
Values with an encoding: trees of sequences and sets over leaves. `Value.encode` writes a value,
and `Value.element` is what has to be read; `Element.read_encode` says that it is, whatever
follows, within the limits on size and depth.
-/

namespace CertificateAudit.Der

open CertificateAudit.Calendar

/-- A value. A leaf has a universal tag, and content that can be read under it. A value that is
tagged otherwise is not looked into, so its content is any byte string. -/
inductive Value where
  | leaf (number : Nat) (content : List UInt8) (reading : Leaf)
      (isLeaf : number < 31 ∧ number ≠ 16 ∧ number ≠ 17)
      (reads : leafOf number false content = some reading)
  | tagged (tagByte : UInt8) (content : List UInt8)
      (otherwise : 0x40 ≤ tagByte.toNat ∧ IsWholeTag tagByte)
  | sequence (items : List Value)
  | set (items : List Value)

namespace Value

def tagByte : Value → UInt8
  | .leaf number .. => UInt8.ofNat number
  | .tagged tagByte .. => tagByte
  | .sequence _ => 0x30
  | .set _ => 0x31

mutual

def content : Value → List UInt8
  | .leaf _ content .. => content
  | .tagged _ content _ => content
  | .sequence items => contents items
  | .set items => contents items

def contents : List Value → List UInt8
  | [] => []
  | value :: values => Der.encode value.tagByte value.content ++ contents values

end

def encode (value : Value) : List UInt8 :=
  Der.encode value.tagByte value.content

/-- The item that an encoded value is cut out as. -/
def item (value : Value) : Item :=
  .of value.tagByte value.content

mutual

/-- The element that a value is read as. -/
def element : Value → Element
  | .leaf number _ reading .. => .leaf ⟨.universal, number⟩ reading
  | .tagged tagByte content _ => .leaf ⟨.ofByte tagByte, tagByte.toNat % 32⟩ (.raw content)
  | .sequence items => .sequence (elements items)
  | .set items => .set (elements items)

def elements : List Value → List Element
  | [] => []
  | value :: values => element value :: elements values

end

mutual

def depth : Value → Nat
  | .leaf .. => 1
  | .tagged .. => 1
  | .sequence items => depths items + 1
  | .set items => depths items + 1

def depths : List Value → Nat
  | [] => 0
  | value :: values => max (depth value) (depths values)

end

theorem contents_eq_flatMap (values : List Value) : contents values = values.flatMap encode := by
  induction values with
  | nil => rfl
  | cons value values inductionHypothesis =>
      rw [contents, inductionHypothesis]
      rfl

theorem elements_eq_map (values : List Value) : elements values = values.map element := by
  induction values with
  | nil => rfl
  | cons value values inductionHypothesis =>
      rw [elements, inductionHypothesis]
      rfl

theorem isWholeTag_tagByte (value : Value) : IsWholeTag value.tagByte := by
  cases value with
  | leaf number content reading isLeaf reads =>
      have small : number < 2 ^ 8 := by omega
      rw [tagByte, IsWholeTag, UInt8.toNat_ofNat_of_lt' small]
      omega
  | tagged tagByte content otherwise => exact otherwise.2
  | sequence => simp [tagByte, IsWholeTag]
  | set => simp [tagByte, IsWholeTag]

theorem length_content_lt (value : Value) : value.content.length < value.encode.length :=
  length_lt_encode value.tagByte value.content

theorem length_encode_le {value : Value} {values : List Value} (membership : value ∈ values) :
    value.encode.length ≤ (contents values).length := by
  rw [contents_eq_flatMap]
  exact length_le_flatMap membership

/-- What stands inside an encoded sequence is shorter than it. -/
theorem length_content_lt_sequence {value : Value} {values : List Value}
    (membership : value ∈ values) :
    value.content.length < (sequence values).encode.length := by
  calc value.content.length
    _ < value.encode.length := value.length_content_lt
    _ ≤ (contents values).length := length_encode_le membership
    _ = (sequence values).content.length := by rw [content]
    _ < (sequence values).encode.length := (sequence values).length_content_lt

theorem readOpenItems_contents {values : List Value}
    (bounded : (contents values).length < lengthBound) :
    readOpenItems (contents values) = some (values.map item) := by
  unfold readOpenItems
  rw [contents_eq_flatMap] at bounded ⊢
  refine readAll_flatMap ?_ ?_ (Nat.le_refl _)
  · intro value membership rest
    have shorter : value.encode.length ≤ (values.flatMap encode).length :=
      length_le_flatMap membership
    have content := value.length_content_lt
    exact readOpenItem_encode value.isWholeTag_tagByte (by omega) rest
  · intro value _ empty
    cases empty

theorem item_sequence (items : List Value) :
    (sequence items).item = ⟨⟨.universal, 16⟩, true, contents items⟩ := by
  have universal : TagClass.ofByte 0x30 = .universal := by decide
  have constructed : isConstructed 0x30 = true := by decide
  simp [item, Item.of, tagByte, content, universal, constructed]

theorem item_set (items : List Value) :
    (set items).item = ⟨⟨.universal, 17⟩, true, contents items⟩ := by
  have universal : TagClass.ofByte 0x31 = .universal := by decide
  have constructed : isConstructed 0x31 = true := by decide
  simp [item, Item.of, tagByte, content, universal, constructed]

theorem ofItem_item_leaf {number : Nat} {content : List UInt8} {reading : Leaf}
    (isLeaf : number < 31 ∧ number ≠ 16 ∧ number ≠ 17)
    (reads : leafOf number false content = some reading) (depth : Nat) :
    Element.ofItem (depth + 1) (leaf number content reading isLeaf reads).item =
      some (.leaf ⟨.universal, number⟩ reading) := by
  have primitive : ∀ n < 31, isConstructed (UInt8.ofNat n) = false ∧
      TagClass.ofByte (UInt8.ofNat n) = .universal ∧ (UInt8.ofNat n).toNat % 32 = n := by
    decide
  obtain ⟨plain, universal, same⟩ := primitive number isLeaf.1
  simp only [item, tagByte, Value.content, Item.of, Element.ofItem, plain, universal, same,
    isLeaf.2.1, isLeaf.2.2, reads]
  simp

theorem ofItem_item_tagged {tagByte : UInt8} {content : List UInt8}
    (otherwise : 0x40 ≤ tagByte.toNat ∧ IsWholeTag tagByte) (depth : Nat) :
    Element.ofItem (depth + 1) (tagged tagByte content otherwise).item =
      some (.leaf ⟨.ofByte tagByte, tagByte.toNat % 32⟩ (.raw content)) := by
  have large : ¬ tagByte < 0x40 := by
    rw [UInt8.lt_iff_toNat_lt]
    exact Nat.not_lt.mpr otherwise.1
  have notUniversal : TagClass.ofByte tagByte ≠ .universal := by
    unfold TagClass.ofByte
    rw [if_neg large]
    split
    · simp
    · split <;> simp
  simp [item, Value.tagByte, Value.content, Item.of, Element.ofItem, notUniversal]

mutual

/-- An encoded value is read as its element, if it is not nested too deeply. -/
theorem ofItem_item (value : Value) (allowed : Nat) (shallow : value.depth ≤ allowed)
    (bounded : value.content.length < lengthBound) :
    Element.ofItem allowed value.item = some value.element := by
  cases allowed with
  | zero => cases value <;> simp [depth] at shallow
  | succ allowed =>
      cases value with
      | leaf number content reading isLeaf reads => exact ofItem_item_leaf isLeaf reads allowed
      | tagged tagByte content otherwise => exact ofItem_item_tagged otherwise allowed
      | sequence items =>
          have inner := mapM_ofItem items allowed (by simpa [depth] using shallow) bounded
          simp [item_sequence, Element.ofItem, readOpenItems_contents bounded, inner, element]
      | set items =>
          have inner := mapM_ofItem items allowed (by simpa [depth] using shallow) bounded
          simp [item_set, Element.ofItem, readOpenItems_contents bounded, inner, element]

theorem mapM_ofItem (values : List Value) (allowed : Nat) (shallow : depths values ≤ allowed)
    (bounded : (contents values).length < lengthBound) :
    (values.map item).mapM (Element.ofItem allowed) = some (elements values) := by
  cases values with
  | nil => rfl
  | cons value values =>
      have size : (contents (value :: values)).length =
          value.encode.length + (contents values).length := List.length_append
      have content := value.length_content_lt
      have levels : value.depth ≤ allowed ∧ depths values ≤ allowed := by
        simpa [depths, Nat.max_le] using shallow
      have first := ofItem_item value allowed levels.1 (by omega)
      have others := mapM_ofItem values allowed levels.2 (by omega)
      simp [first, others, elements]

end

/-- An encoded sequence is read as its element, whatever follows. -/
theorem read_encode_sequence {items : List Value} (shallow : (sequence items).depth ≤ maxDepth)
    (small : (sequence items).encode.length ≤ Element.maxSize) (rest : List UInt8) :
    Element.read ((sequence items).encode ++ rest) = some (.sequence (elements items), rest) := by
  have content := (sequence items).length_content_lt
  have bounded : (sequence items).content.length < lengthBound := by
    unfold Element.maxSize at small
    unfold lengthBound
    omega
  have cut : readItem ((sequence items).encode ++ rest) = some ((sequence items).item, rest) :=
    readItem_encode (sequence items).isWholeTag_tagByte bounded rest
  have looked := ofItem_item (sequence items) maxDepth shallow bounded
  have accepted : (sequence items).item.content.length ≤ Element.maxSize ∧
      Element.isStrict (sequence items).item = true := by
    refine ⟨?_, ?_⟩
    · change (sequence items).content.length ≤ _
      omega
    · rw [item_sequence]
      rfl
  simp only [Element.read, cut, accepted, looked, element, Option.bind_eq_bind,
    Option.bind_some, and_self, if_true, Option.pure_def]

/-! The kinds of values that messages are made of. -/

def integer (bytes : List UInt8) : Value :=
  .leaf 2 bytes (.integer bytes) (by decide) rfl

def bitString (unusedBits : UInt8) (bytes : List UInt8) : Value :=
  .leaf 3 (unusedBits :: bytes) (.bitString unusedBits bytes) (by decide) rfl

def octetString (bytes : List UInt8) : Value :=
  .leaf 4 bytes (.octetString bytes) (by decide) rfl

def objectId (bytes : List UInt8) : Value :=
  .leaf 6 bytes (.objectId bytes) (by decide) rfl

theorem leafOf_enumerated (code : UInt8) :
    leafOf 10 false [code] = some (.enumerated code.toNat) := by
  have small := code.toNat_lt
  have fits : code.toNat < 4294967296 := by omega
  simp [leafOf, unsigned, fits]

def enumerated (code : UInt8) : Value :=
  .leaf 10 [code] (.enumerated code.toNat) (by decide) (leafOf_enumerated code)

theorem leafOf_time {stamp : Stamp} (noLeap : stamp.moment.second ≤ 59) :
    leafOf 24 false stamp.bytes = some .other := by
  simp [leafOf, Clock.ofLongYear?_bytes noLeap]

/-- A time in the four-digit form, in which leap seconds cannot be read. -/
def time (stamp : Stamp) (noLeap : stamp.moment.second ≤ 59) : Value :=
  .leaf 24 stamp.bytes .other (by decide) (leafOf_time noLeap)

def contextTag (constructed : Bool) (number : Fin 31) : UInt8 :=
  UInt8.ofNat ((if constructed then 0xa0 else 0x80) + number)

theorem contextTag_spec : ∀ (constructed : Bool) (number : Fin 31),
    0x40 ≤ (contextTag constructed number).toNat ∧
      (contextTag constructed number).toNat % 32 ≠ 31 ∧
      TagClass.ofByte (contextTag constructed number) = .contextSpecific ∧
      (contextTag constructed number).toNat % 32 = number := by
  decide

def context (constructed : Bool) (number : Fin 31) (bytes : List UInt8) : Value :=
  .tagged (contextTag constructed number) bytes
    ⟨(contextTag_spec constructed number).1, (contextTag_spec constructed number).2.1⟩

@[simp]
theorem element_context (constructed : Bool) (number : Fin 31) (bytes : List UInt8) :
    (context constructed number bytes).element =
      .leaf ⟨.contextSpecific, number⟩ (.raw bytes) := by
  obtain ⟨_, _, ofContext, same⟩ := contextTag_spec constructed number
  simp only [context, element, ofContext, same]

end Value

end CertificateAudit.Der
