import CertificateAudit.Proofs.Der.Tagging
import CertificateAudit.Proofs.Ocsp.RoundTrip
import CertificateAudit.Proofs.Ocsp.Status

/-!
Where a status comes from. `ReadFrom` says what an answer is from which a status is read, from the
report of success on the outside down to the status element, and `certStatus_origin` that nothing
else is believed. The type of an answer is compared as printed text, and elements that are not the
identifier of the basic type print its text as well (`IsAlias`); they are the only way for an
answer of another type to be believed. Tag numbers are the 32 bits that the decoder keeps of them.
-/

namespace CertificateAudit.Ocsp

open CertificateAudit.Calendar CertificateAudit.Der

/-- The answer starts with the report of success and wraps these bytes. -/
inductive Succeeds (response wrapped : List UInt8) : Prop where
  | intro {wrapper others behind} :
      Element.read response =
        some (.sequence (.leaf ⟨.universal, 10⟩ (.enumerated 0) :: wrapper :: others), behind) →
      wrapper.bytes? = some wrapped → Succeeds response wrapped

/-- The wrapped bytes hold an element for the type and the bytes of an answer. -/
inductive Holds (wrapped : List UInt8) (type : Element) (basic : List UInt8) : Prop where
  | intro {body others behind} :
      Element.read wrapped = some (.sequence (type :: body :: others), behind) →
      body.bytes? = some basic → Holds wrapped type basic

/-- The list is the first sequence in the data of the answer. -/
inductive Lists (basic : List UInt8) (list : List Element) : Prop where
  | intro {before after others behind} :
      Element.read basic =
        some (.sequence (.sequence (before ++ .sequence list :: after) :: others), behind) →
      (∀ field ∈ before, ∀ items, field ≠ .sequence items) → Lists basic list

/-- The object identifier of the basic type, spelled as it has to be. -/
def IsBasicType (type : Element) : Prop :=
  type = .leaf ⟨.universal, 6⟩ (.objectId Answer.basicType)

/-- Another element that prints the same text: an object identifier in another spelling, or one
that is relative to an identifier which is not there. -/
inductive IsAlias : Element → Prop where
  | misspelled {bytes} :
      bytes ≠ Answer.basicType → ObjectId.text bytes = basicResponseType →
      IsAlias (.leaf ⟨.universal, 6⟩ (.objectId bytes))
  | relative {bytes} :
      ObjectId.relativeText bytes = basicResponseType →
      IsAlias (.leaf ⟨.universal, 13⟩ (.relativeObjectId bytes))

/-- The status is that of the second element of an entry, in an answer with such a type. -/
inductive ReadFrom (isType : Element → Prop) (response serial : List UInt8) (status : CertStatus) :
    Prop where
  | intro {wrapped type basic list certId given others} :
      Succeeds response wrapped → Holds wrapped type basic → isType type → Lists basic list →
      Decides serial list (.sequence (certId :: given :: others)) → Tells given status →
      ReadFrom isType response serial status

/-- The fault that reports another code than that of success. -/
def refusal (code : Nat) : Fault :=
  match ResponderStatus.ofCode? code with
  | some status => .refused status
  | none => .unrecognisedStatus code

/-! Layers that are read. -/

theorem readElement_eq_ok_iff {bytes : List UInt8} {element : Element} :
    readElement bytes = .ok element ↔ ∃ behind, Element.read bytes = some (element, behind) := by
  unfold readElement
  split
  case h_1 found behind reads =>
    rw [reads]
    constructor
    · intro same
      cases same
      exact ⟨behind, rfl⟩
    · rintro ⟨_, same⟩
      cases same
      rfl
  case h_2 unread => simp [unread]

theorem itemsOf_eq_ok_iff {layer : Layer} {element : Element} {items : List Element} :
    itemsOf layer element = .ok items ↔ element = .sequence items := by
  rw [← Element.items?_eq_some_iff]
  unfold itemsOf
  cases element.items? <;> simp

/-- A layer is read if it is a sequence and what stands in it is read. -/
theorem readItems_eq_ok_iff {α : Type} {layer : Layer} {bytes : List UInt8}
    {next : List Element → Except Fault α} {result : α} :
    (readElement bytes >>= fun element => itemsOf layer element >>= next) = .ok result ↔
      ∃ items behind, Element.read bytes = some (.sequence items, behind) ∧
        next items = .ok result := by
  constructor
  · intro given
    obtain ⟨element, read, given⟩ := bind_eq_ok_iff.mp given
    obtain ⟨items, isSequence, given⟩ := bind_eq_ok_iff.mp given
    obtain ⟨behind, read⟩ := readElement_eq_ok_iff.mp read
    obtain rfl := itemsOf_eq_ok_iff.mp isSequence
    exact ⟨items, behind, read, given⟩
  · rintro ⟨items, behind, read, given⟩
    refine bind_eq_ok_iff.mpr ⟨_, readElement_eq_ok_iff.mpr ⟨behind, read⟩, ?_⟩
    exact bind_eq_ok_iff.mpr ⟨items, itemsOf_eq_ok_iff.mpr rfl, given⟩

section

variable {response wrapped basic : List UInt8} {list : List Element}

theorem enumerated?_eq_some_iff {element : Element} {code : Nat} :
    element.enumerated? = some code ↔ ∃ tag, element = .leaf tag (.enumerated code) := by
  cases element with
  | leaf tag content => cases content <;> simp [Element.enumerated?]
  | sequence items => simp [Element.enumerated?]
  | set items => simp [Element.enumerated?]

theorem ofCode?_eq_successful_iff {code : Nat} :
    ResponderStatus.ofCode? code = some .successful ↔ code = 0 := by
  unfold ResponderStatus.ofCode?
  split <;> simp_all

/-- What is read behind the report of a code. -/
theorem responseBytes_of_read {tag : Tag} {code : Nat} {others : List Element}
    {behind : List UInt8}
    (reads : Element.read response =
      some (.sequence (.leaf tag (.enumerated code) :: others), behind)) :
    responseBytes response =
      if code = 0 then
        match others.head? with
        | none => .error .noResponseBytes
        | some wrapper =>
            match wrapper.bytes? with
            | some bytes => .ok bytes
            | none => .error .unreadableWrapper
      else .error (refusal code) := by
  have outer := readElement_eq_ok_iff.mpr ⟨behind, reads⟩
  unfold responseBytes
  rw [outer]
  by_cases successful : code = 0
  · subst successful
    cases others <;> rfl
  · have other := mt ofCode?_eq_successful_iff.mp successful
    rw [if_neg successful, refusal]
    simp only [itemsOf, Element.items?, bind, Except.bind, List.head?_cons, Option.bind_some,
      Element.enumerated?, pure, Except.pure]
    cases named : ResponderStatus.ofCode? code with
    | none => rfl
    | some status =>
        cases status with
        | successful => exact absurd named other
        | _ => rfl

theorem responseBytes_eq_ok_iff :
    responseBytes response = .ok wrapped ↔ Succeeds response wrapped := by
  constructor
  · intro given
    obtain ⟨items, behind, read, rest⟩ := readItems_eq_ok_iff.mp given
    cases isCode : items.head?.bind Element.enumerated? with
    | none =>
        rw [isCode] at rest
        cases rest
    | some code =>
        obtain ⟨first, isFirst, isEnumerated⟩ := Option.bind_eq_some_iff.mp isCode
        obtain ⟨tag, rfl⟩ := enumerated?_eq_some_iff.mp isEnumerated
        obtain ⟨others, rfl⟩ := List.head?_eq_some_iff.mp isFirst
        have tagged := (Element.isTagged_of_read read).item List.mem_cons_self
        obtain rfl : tag = ⟨.universal, 10⟩ := tagged.fits 10 rfl
        rw [responseBytes_of_read read] at given
        split at given
        case isTrue successful =>
          subst successful
          cases others with
          | nil => cases given
          | cons wrapper others =>
              dsimp only [List.head?_cons] at given
              split at given
              case h_1 bytes content =>
                cases given
                exact .intro read content
              case h_2 => cases given
        case isFalse => cases given
  · rintro ⟨read, content⟩
    rw [responseBytes_of_read read]
    simp only [if_true, List.head?_cons, content]

theorem objectIdText?_eq_some_iff {element : Element} {text : String} :
    element.objectIdText? = some text ↔
      (∃ tag bytes, element = .leaf tag (.objectId bytes) ∧ ObjectId.text bytes = text) ∨
        ∃ tag bytes, element = .leaf tag (.relativeObjectId bytes) ∧
          ObjectId.relativeText bytes = text := by
  cases element with
  | leaf tag content => cases content <;> simp [Element.objectIdText?]
  | sequence items => simp [Element.objectIdText?]
  | set items => simp [Element.objectIdText?]

/-- Among decoded elements, these print the text of the basic type. -/
theorem isBasicType_or_isAlias_iff {type : Element} (tagged : type.IsTagged) :
    type.objectIdText? = some basicResponseType ↔ IsBasicType type ∨ IsAlias type := by
  rw [objectIdText?_eq_some_iff]
  constructor
  · rintro (⟨tag, bytes, rfl, printed⟩ | ⟨tag, bytes, rfl, printed⟩)
    · obtain rfl : tag = ⟨.universal, 6⟩ := tagged.fits 6 rfl
      by_cases same : bytes = Answer.basicType
      · subst same
        exact .inl rfl
      · exact .inr (.misspelled same printed)
    · obtain rfl : tag = ⟨.universal, 13⟩ := tagged.fits 13 rfl
      exact .inr (.relative printed)
  · rintro (rfl | isAlias)
    · exact .inl ⟨_, _, rfl, by decide +kernel⟩
    · cases isAlias with
      | misspelled _ printed => exact .inl ⟨_, _, rfl, printed⟩
      | relative printed => exact .inr ⟨_, _, rfl, printed⟩

-- The last arc may have leading zero digits, and its last byte may say that more follow.
example : IsAlias (.leaf ⟨.universal, 6⟩ (.objectId
    [0x2b, 0x06, 0x01, 0x05, 0x05, 0x07, 0x30, 0x01, 0x80, 0x81])) :=
  .misspelled (by decide) (by decide +kernel)

theorem basicResponse_eq_ok_iff :
    basicResponse wrapped = .ok basic ↔
      ∃ type, Holds wrapped type basic ∧ (IsBasicType type ∨ IsAlias type) := by
  refine readItems_eq_ok_iff.trans ?_
  constructor
  · rintro ⟨items, behind, read, given⟩
    split at given
    case h_1 => cases given
    case h_2 text printed =>
      split at given
      case isTrue same =>
        subst same
        split at given
        case h_1 content isContent =>
          cases given
          obtain ⟨type, isFirst, printed⟩ := Option.bind_eq_some_iff.mp printed
          obtain ⟨others, rfl⟩ := List.head?_eq_some_iff.mp isFirst
          obtain ⟨body, isSecond, isContent⟩ := Option.bind_eq_some_iff.mp isContent
          have tagged := (Element.isTagged_of_read read).item List.mem_cons_self
          refine ⟨type, ?_, (isBasicType_or_isAlias_iff tagged).mp printed⟩
          cases others with
          | nil => cases isSecond
          | cons second others =>
              cases isSecond
              exact .intro read isContent
        case h_2 => cases given
      case isFalse => cases given
  · rintro ⟨type, ⟨read, content⟩, isType⟩
    have tagged := (Element.isTagged_of_read read).item List.mem_cons_self
    have printed := (isBasicType_or_isAlias_iff tagged).mpr isType
    refine ⟨_, _, read, ?_⟩
    simp only [List.head?_cons, Option.bind_some, printed, if_true, List.getElem?_cons_succ,
      List.getElem?_cons_zero, content]
    rfl

theorem responses_eq_ok_iff : responses basic = .ok list ↔ Lists basic list := by
  refine readItems_eq_ok_iff.trans ?_
  constructor
  · rintro ⟨items, behind, read, given⟩
    split at given
    case h_1 => cases given
    case h_2 data isFirst =>
      obtain ⟨others, rfl⟩ := List.head?_eq_some_iff.mp isFirst
      obtain ⟨fields, isSequence, found⟩ := bind_eq_ok_iff.mp given
      obtain rfl := itemsOf_eq_ok_iff.mp isSequence
      split at found
      case h_1 isFirst =>
        cases found
        obtain ⟨before, field, after, rfl, isList, noneBefore⟩ :=
          List.findSome?_eq_some_iff.mp isFirst
        obtain rfl := Element.items?_eq_some_iff.mp isList
        refine .intro read fun field membership items isSequence => ?_
        cases (noneBefore field membership).symm.trans (Element.items?_eq_some_iff.mpr isSequence)
      case h_2 => cases found
  · rintro ⟨read, noneBefore⟩
    refine ⟨_, _, read, bind_eq_ok_iff.mpr ⟨_, itemsOf_eq_ok_iff.mpr rfl, ?_⟩⟩
    rename_i before after others behind
    have isFirst : (before ++ .sequence list :: after).findSome? Element.items? = some list := by
      refine List.findSome?_eq_some_iff.mpr ⟨before, .sequence list, after, rfl, rfl, ?_⟩
      intro field membership
      cases isItems : field.items? with
      | none => rfl
      | some items =>
          exact absurd (Element.items?_eq_some_iff.mp isItems) (noneBefore field membership items)
    rw [isFirst]
    rfl

/-- The list of responses is that of an answer of the basic type, or of one that is taken for
it. -/
theorem listOf_eq_ok_iff :
    listOf response = .ok list ↔
      ∃ wrapped type basic, Succeeds response wrapped ∧ Holds wrapped type basic ∧
        (IsBasicType type ∨ IsAlias type) ∧ Lists basic list := by
  simp only [listOf, bind_eq_ok_iff, responseBytes_eq_ok_iff, basicResponse_eq_ok_iff,
    responses_eq_ok_iff]
  constructor
  · rintro ⟨wrapped, succeeds, basic, ⟨type, holds, isType⟩, lists⟩
    exact ⟨wrapped, type, basic, succeeds, holds, isType, lists⟩
  · rintro ⟨wrapped, type, basic, succeeds, holds, isType, lists⟩
    exact ⟨wrapped, succeeds, basic, ⟨type, holds, isType⟩, lists⟩

/-! The whole answer. -/

theorem Succeeds.unique {other : List UInt8} (succeeds : Succeeds response wrapped)
    (succeedsOther : Succeeds response other) : wrapped = other :=
  Except.ok.inj ((responseBytes_eq_ok_iff.mpr succeeds).symm.trans
    (responseBytes_eq_ok_iff.mpr succeedsOther))

theorem Holds.type_unique {otherBasic : List UInt8} {type otherType : Element}
    (holds : Holds wrapped type basic) (holdsOther : Holds wrapped otherType otherBasic) :
    type = otherType := by
  obtain ⟨read, _⟩ := holds
  obtain ⟨readOther, _⟩ := holdsOther
  cases read.symm.trans readOther
  rfl

theorem IsBasicType.not_isAlias {type : Element} (isBasic : IsBasicType type) :
    ¬ IsAlias type := by
  subst isBasic
  rintro ⟨other, _⟩
  exact other rfl

variable {serial : List UInt8} {status : CertStatus}

theorem certStatus_eq_ok_iff_readFrom :
    certStatus response serial = .ok status ↔
      ReadFrom IsBasicType response serial status ∨ ReadFrom IsAlias response serial status := by
  rw [certStatus_eq_ok_iff]
  constructor
  · rintro ⟨list, element, listed, decides, certId, given, others, rfl, tells⟩
    obtain ⟨wrapped, type, basic, succeeds, holds, isType, lists⟩ := listOf_eq_ok_iff.mp listed
    have tells := readStatus_eq_ok_iff.mp tells
    rcases isType with isBasic | isAlias
    · exact .inl (.intro succeeds holds isBasic lists decides tells)
    · exact .inr (.intro succeeds holds isAlias lists decides tells)
  · rintro (⟨succeeds, holds, isType, lists, decides, tells⟩ |
      ⟨succeeds, holds, isType, lists, decides, tells⟩)
    · exact ⟨_, _, listOf_eq_ok_iff.mpr ⟨_, _, _, succeeds, holds, .inl isType, lists⟩, decides,
        _, _, _, rfl, readStatus_eq_ok_iff.mpr tells⟩
    · exact ⟨_, _, listOf_eq_ok_iff.mpr ⟨_, _, _, succeeds, holds, .inr isType, lists⟩, decides,
        _, _, _, rfl, readStatus_eq_ok_iff.mpr tells⟩

/-- An answer has one type, so it is not both of the basic type and taken for it. -/
theorem ReadFrom.not_alias {other : CertStatus}
    (read : ReadFrom IsBasicType response serial status) :
    ¬ ReadFrom IsAlias response serial other := by
  rintro ⟨succeedsOther, holdsOther, isAlias, _⟩
  obtain ⟨succeeds, holds, isBasic, _⟩ := read
  obtain rfl := succeeds.unique succeedsOther
  obtain rfl := holds.type_unique holdsOther
  exact isBasic.not_isAlias isAlias

theorem certStatus_of_refusal {tag : Tag} {code : Nat} {others : List Element}
    {behind : List UInt8} (refused : code ≠ 0)
    (reads : Element.read response =
      some (.sequence (.leaf tag (.enumerated code) :: others), behind)) :
    certStatus response serial = .error (refusal code) := by
  have failed := responseBytes_of_read reads
  rw [if_neg refused] at failed
  rw [certStatus, failed]
  rfl

theorem certStatus_of_cls {certId given : Element} {others : List Element}
    (listed : listOf response = .ok list)
    (decides : Decides serial list (.sequence (certId :: given :: others)))
    (otherClass : given.cls ≠ .contextSpecific) :
    certStatus response serial = .error (.notContextTagged given.cls) := by
  have selected : selectSingle serial list = .ok ⟨certId, given⟩ :=
    selectSingle_eq_ok_iff.mpr ⟨_, decides, rfl⟩
  rw [certStatus_eq_bind, listed]
  dsimp only [bind, Except.bind]
  rw [selected]
  exact readStatus_of_cls otherClass

end

/-- What is believed, and where it is wrong to: a status is read from exactly the answers that
report success, have the basic type or an alias of it, and have an entry with this status
deciding, so a status comes from an answer of the basic type unless the type is an alias. Anything
else is a fault; a responder's refusal is one whatever follows it, and so is a status element
whose tag is not of the context class. -/
theorem certStatus_origin (response serial : List UInt8) :
    (∀ status, certStatus response serial = .ok status ↔
      ReadFrom IsBasicType response serial status ∨ ReadFrom IsAlias response serial status) ∧
    (∀ status, (certStatus response serial = .ok status →
      ReadFrom IsBasicType response serial status) ↔ ¬ ReadFrom IsAlias response serial status) ∧
    ((∃ fault, certStatus response serial = .error fault) ↔
      ∀ status, ¬ ReadFrom IsBasicType response serial status ∧
        ¬ ReadFrom IsAlias response serial status) ∧
    (∀ tag code others behind, code ≠ 0 →
      Element.read response = some (.sequence (.leaf tag (.enumerated code) :: others), behind) →
        certStatus response serial = .error (refusal code)) ∧
    ∀ list certId given others, listOf response = .ok list →
      Decides serial list (.sequence (certId :: given :: others)) →
        given.cls ≠ .contextSpecific →
          certStatus response serial = .error (.notContextTagged given.cls) := by
  refine ⟨fun status => certStatus_eq_ok_iff_readFrom, ?_, ?_,
    fun tag code others behind refused => certStatus_of_refusal refused,
    fun list certId given others => certStatus_of_cls⟩
  · intro status
    constructor
    · intro origin isAlias
      exact (origin (certStatus_eq_ok_iff_readFrom.mpr (.inr isAlias))).not_alias isAlias
    · intro noAlias given
      exact (certStatus_eq_ok_iff_readFrom.mp given).resolve_right noAlias
  · constructor
    · rintro ⟨fault, failed⟩ status
      rw [← not_or, ← certStatus_eq_ok_iff_readFrom, failed]
      exact fun impossible => nomatch impossible
    · intro unread
      cases given : certStatus response serial with
      | error fault => exact ⟨fault, rfl⟩
      | ok status =>
          obtain ⟨noBasic, noAlias⟩ := unread status
          rcases certStatus_eq_ok_iff_readFrom.mp given with isBasic | isAlias
          · exact absurd isBasic noBasic
          · exact absurd isAlias noAlias

/-- The content of the type of an answer, without its being compared. -/
def typeContent? (response : List UInt8) : Option Leaf := do
  let wrapped ← (responseBytes response).toOption
  let (element, _) ← Element.read wrapped
  match ← (← element.items?).head? with
  | .leaf _ content => some content
  | _ => none

theorem typeContent?_of_holds {response wrapped basic : List UInt8} {tag : Tag} {content : Leaf}
    (succeeds : Succeeds response wrapped) (holds : Holds wrapped (.leaf tag content) basic) :
    typeContent? response = some content := by
  obtain ⟨read, _⟩ := holds
  simp only [typeContent?, responseBytes_eq_ok_iff.mpr succeeds, Except.toOption,
    Option.bind_eq_bind, Option.bind_some, read, Element.items?, List.head?_cons]

/-- An answer whose only entry has an octet string for a status. -/
def octetAnswer : List UInt8 :=
  [0x30, 0x21, 0x0a, 0x01, 0x00, 0xa0, 0x1c, 0x30, 0x1a, 0x06, 0x09, 0x2b, 0x06, 0x01, 0x05, 0x05,
    0x07, 0x30, 0x01, 0x01, 0x04, 0x0d, 0x30, 0x0b, 0x30, 0x09, 0x30, 0x07, 0x30, 0x05, 0x02, 0x01,
    0x00, 0x04, 0x00]

/-- A revocation in an answer of the basic type, a refusal with something behind it, and a status
of the universal class. -/
theorem certStatus_origin_sample :
    ReadFrom IsBasicType Answer.sample.encode [0x80]
        (.revoked Answer.sampleTime.moment (some "keyCompromise")) ∧
      certStatus [0x30, 0x05, 0x0a, 0x01, 0x03, 0x05, 0x00] [0x07] = .error (.refused .tryLater) ∧
      certStatus octetAnswer [0x07] = .error (.notContextTagged .universal) := by
  obtain ⟨_, source, _⟩ := certStatus_origin Answer.sample.encode [0x80]
  obtain ⟨_, _, _, refuses, _⟩ :=
    certStatus_origin [0x30, 0x05, 0x0a, 0x01, 0x03, 0x05, 0x00] [0x07]
  obtain ⟨_, _, _, _, rejects⟩ := certStatus_origin octetAnswer [0x07]
  refine ⟨?_, refuses ⟨.universal, 10⟩ 3 [.leaf ⟨.universal, 5⟩ .other] [] (by decide) rfl, ?_⟩
  · refine (source _).mpr ?_ (by decide +kernel)
    rintro ⟨succeeds, holds, isAlias, _⟩
    have basic : typeContent? Answer.sample.encode = some (.objectId Answer.basicType) := by
      decide +kernel
    cases isAlias with
    | misspelled other =>
        cases (typeContent?_of_holds succeeds holds).symm.trans basic
        exact other rfl
    | relative => cases (typeContent?_of_holds succeeds holds).symm.trans basic
  · refine rejects _ (.leaf ⟨.universal, 2⟩ (.integer [0]))
      (.leaf ⟨.universal, 4⟩ (.octetString [])) [] rfl ?_ (by decide)
    refine @Decides.lone _ _ _ [] [] rfl ⟨_, _, _, rfl⟩ ?_ (List.forall_mem_nil _)
    rintro ⟨ids, others, tag, bytes, same, _⟩
    cases same

/-- An answer whose type is a relative identifier, with one entry about the serial number 7. -/
def relativeAnswer : List UInt8 :=
  [0x30, 0x63, 0x0a, 0x01, 0x00, 0xa0, 0x5e, 0x30, 0x5c, 0x0d, 0x0a, 0x01, 0x03, 0x06, 0x01, 0x05,
    0x05, 0x07, 0x30, 0x01, 0x01, 0x04, 0x4e, 0x30, 0x4c, 0x30, 0x41, 0xa2, 0x03, 0x04, 0x01, 0x33,
    0x18, 0x0f, 0x32, 0x30, 0x32, 0x34, 0x30, 0x36, 0x30, 0x31, 0x30, 0x30, 0x30, 0x30, 0x30, 0x30,
    0x5a, 0x30, 0x29, 0x30, 0x27, 0x30, 0x12, 0x30, 0x07, 0x06, 0x05, 0x2b, 0x0e, 0x03, 0x02, 0x1a,
    0x04, 0x01, 0x11, 0x04, 0x01, 0x22, 0x02, 0x01, 0x07, 0x80, 0x00, 0x18, 0x0f, 0x32, 0x30, 0x32,
    0x34, 0x30, 0x36, 0x30, 0x31, 0x30, 0x30, 0x30, 0x30, 0x30, 0x30, 0x5a, 0x30, 0x03, 0x06, 0x01,
    0x2a, 0x03, 0x02, 0x00, 0x00]

/-- The answer is believed although its type is no object identifier. -/
theorem relativeAnswer_believed :
    certStatus relativeAnswer [0x07] = .ok .good ∧
      ∀ status, ¬ ReadFrom IsBasicType relativeAnswer [0x07] status := by
  have good : certStatus relativeAnswer [0x07] = .ok .good := by decide +kernel
  have relative : typeContent? relativeAnswer = some (.relativeObjectId
      [0x01, 0x03, 0x06, 0x01, 0x05, 0x05, 0x07, 0x30, 0x01, 0x01]) := by decide +kernel
  refine ⟨good, ?_⟩
  rintro status ⟨succeeds, holds, rfl, _⟩
  cases (typeContent?_of_holds succeeds holds).symm.trans relative

end CertificateAudit.Ocsp
