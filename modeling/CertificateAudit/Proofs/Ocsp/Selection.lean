import CertificateAudit.Ocsp.Response
import CertificateAudit.Proofs.Der.Number
import CertificateAudit.Proofs.Traversal

/-!
Which entry of an answer decides. A list of responses may hold elements that are no entries at
all; they are left out before the entries are counted. So an entry about another certificate
decides not only where it stands alone, but also among such elements, and `ownStatus_iff` says
that this is the only case in which the status is not one about the serial number.
-/

namespace CertificateAudit.Der.Element

theorem integer?_eq_some_iff {element : Element} {bytes : List UInt8} :
    element.integer? = some bytes ↔ ∃ tag, element = .leaf tag (.integer bytes) := by
  constructor
  · intro read
    match element with
    | .leaf tag (.integer _) =>
        cases read
        exact ⟨tag, rfl⟩
  · rintro ⟨tag, rfl⟩
    rfl

theorem items?_eq_some_iff {element : Element} {items : List Element} :
    element.items? = some items ↔ element = .sequence items := by
  cases element <;> simp [Element.items?]

end CertificateAudit.Der.Element

namespace CertificateAudit.Ocsp

open CertificateAudit.Der

/-- The list of responses in an answer. -/
def listOf (response : List UInt8) : Except Fault (List Element) := do
  responses (← basicResponse (← responseBytes response))

/-- An entry has an identification and a status. -/
def IsEntry (element : Element) : Prop :=
  ∃ certId status others, element = .sequence (certId :: status :: others)

/-- The identification of the element ends with the serial number, in any spelling. -/
def IsAbout (serial : List UInt8) (element : Element) : Prop :=
  ∃ ids others tag bytes, element = .sequence (.sequence ids :: others) ∧
    ids.getLast? = some (.leaf tag (.integer bytes)) ∧ unsigned bytes = unsigned serial

/-- The status of the entry is this one. -/
def Gives (element : Element) (status : CertStatus) : Prop :=
  ∃ certId given others, element = .sequence (certId :: given :: others) ∧
    readStatus given = .ok status

theorem Gives.isEntry {element : Element} {status : CertStatus} (gives : Gives element status) :
    IsEntry element := by
  obtain ⟨certId, given, others, same, _⟩ := gives
  exact ⟨certId, given, others, same⟩

namespace SingleResponse

theorem ofElement?_eq_some_iff {element : Element} {single : SingleResponse} :
    ofElement? element = some single ↔
      ∃ others, element = .sequence (single.certId :: single.status :: others) := by
  constructor
  · intro read
    match element with
    | .sequence (certId :: status :: others) =>
        simp only [ofElement?, Element.items?, Option.some.injEq] at read
        subst read
        exact ⟨others, rfl⟩
    | .sequence [] => simp [ofElement?, Element.items?] at read
    | .sequence [_] => simp [ofElement?, Element.items?] at read
    | .leaf _ _ => simp [ofElement?, Element.items?] at read
    | .set _ => simp [ofElement?, Element.items?] at read
  · rintro ⟨others, rfl⟩
    rfl

theorem isEntry_of_read {element : Element} {single : SingleResponse}
    (read : ofElement? element = some single) : IsEntry element := by
  obtain ⟨others, same⟩ := ofElement?_eq_some_iff.mp read
  exact ⟨single.certId, single.status, others, same⟩

theorem ofElement?_eq_none_iff {element : Element} :
    ofElement? element = none ↔ ¬ IsEntry element := by
  constructor
  · rintro unread ⟨certId, status, others, rfl⟩
    cases unread
  · intro noEntry
    cases read : ofElement? element with
    | none => rfl
    | some single => exact absurd (isEntry_of_read read) noEntry

theorem isFor_iff {serial : List UInt8} {element : Element} {single : SingleResponse}
    (read : ofElement? element = some single) :
    single.isFor serial = true ↔ IsAbout serial element := by
  obtain ⟨others, rfl⟩ := ofElement?_eq_some_iff.mp read
  unfold isFor
  constructor
  · intro matching
    split at matching
    next bytes spelled =>
      obtain ⟨last, lastOf, isInteger⟩ := Option.bind_eq_some_iff.mp spelled
      obtain ⟨ids, isSequence, isLast⟩ := Option.bind_eq_some_iff.mp lastOf
      obtain ⟨tag, rfl⟩ := Element.integer?_eq_some_iff.mp isInteger
      refine ⟨ids, single.status :: others, tag, bytes, ?_, isLast, ?_⟩
      · rw [Element.items?_eq_some_iff.mp isSequence]
      · rw [trimZeros_beq] at matching
        exact beq_iff_eq.mp matching
    next => cases matching
  · rintro ⟨ids, _, tag, bytes, same, isLast, sameNumber⟩
    have isSequence : single.certId = .sequence ids := by
      injection same with items
      exact (List.cons.inj items).1
    simp only [isSequence, Element.items?, Option.bind_some, isLast, Element.integer?,
      trimZeros_beq, beq_iff_eq]
    exact sameNumber

end SingleResponse

open SingleResponse

variable {serial : List UInt8} {list : List Element} {single : SingleResponse}

theorem find?_eq_some_iff :
    (list.filterMap ofElement?).find? (isFor serial) = some single ↔
      ∃ before element after, list = before ++ element :: after ∧
        ofElement? element = some single ∧ IsAbout serial element ∧
        ∀ other ∈ before, IsEntry other → ¬ IsAbout serial other := by
  rw [List.find?_filterMap, Option.bind_eq_some_iff]
  constructor
  · rintro ⟨element, found, read⟩
    obtain ⟨isFirst, before, after, rfl, noneBefore⟩ := List.find?_eq_some_iff_append.mp found
    refine ⟨before, element, after, rfl, read, ?_, ?_⟩
    · rw [read] at isFirst
      exact (isFor_iff read).mp isFirst
    · rintro other membership ⟨certId, status, others, rfl⟩ about
      have skipped := noneBefore _ membership
      have readOther : ofElement? (.sequence (certId :: status :: others)) =
          some ⟨certId, status⟩ := rfl
      simp [readOther, (isFor_iff readOther).mpr about] at skipped
  · rintro ⟨before, element, after, rfl, read, about, noneBefore⟩
    refine ⟨element, List.find?_eq_some_iff_append.mpr ⟨?_, before, after, rfl, ?_⟩, read⟩
    · rw [read]
      exact (isFor_iff read).mpr about
    · intro other membership
      cases readOther : ofElement? other with
      | none => rfl
      | some otherSingle =>
          have foreign := noneBefore other membership (isEntry_of_read readOther)
          rw [← isFor_iff readOther] at foreign
          simpa using foreign

theorem filterMap_eq_singleton_iff :
    list.filterMap ofElement? = [single] ↔
      ∃ before element after, list = before ++ element :: after ∧
        ofElement? element = some single ∧ ∀ other ∈ before ++ after, ¬ IsEntry other := by
  constructor
  · intro only
    obtain ⟨before, element, after, rfl, noneBefore, read, noneAfter⟩ :=
      List.filterMap_eq_cons_iff.mp only
    refine ⟨before, element, after, rfl, read, ?_⟩
    intro other membership
    rcases List.mem_append.mp membership with first | last
    · exact ofElement?_eq_none_iff.mp (noneBefore other first)
    · exact ofElement?_eq_none_iff.mp (List.filterMap_eq_nil_iff.mp noneAfter other last)
  · rintro ⟨before, element, after, rfl, read, others⟩
    refine List.filterMap_eq_cons_iff.mpr ⟨before, element, after, rfl, ?_, read, ?_⟩
    · intro other membership
      exact ofElement?_eq_none_iff.mpr (others other (List.mem_append_left after membership))
    · refine List.filterMap_eq_nil_iff.mpr ?_
      intro other membership
      exact ofElement?_eq_none_iff.mpr (others other (List.mem_append_right before membership))

theorem find?_eq_none_iff :
    (list.filterMap ofElement?).find? (isFor serial) = none ↔
      ∀ element ∈ list, IsEntry element → ¬ IsAbout serial element := by
  rw [List.find?_eq_none]
  constructor
  · rintro noneIsFor element membership ⟨certId, status, others, rfl⟩ about
    have read : ofElement? (.sequence (certId :: status :: others)) = some ⟨certId, status⟩ := rfl
    exact noneIsFor _ (List.mem_filterMap.mpr ⟨_, membership, read⟩) ((isFor_iff read).mpr about)
  · intro noneIsAbout single membership matching
    obtain ⟨element, inList, read⟩ := List.mem_filterMap.mp membership
    exact noneIsAbout element inList (isEntry_of_read read) ((isFor_iff read).mp matching)

/-- An entry decides by being the first about the serial number, or by being the only entry. -/
inductive Decides (serial : List UInt8) (list : List Element) (element : Element) : Prop where
  | own {before after} :
      list = before ++ element :: after →
      IsEntry element → IsAbout serial element →
      (∀ other ∈ before, IsEntry other → ¬ IsAbout serial other) →
      Decides serial list element
  | lone {before after} :
      list = before ++ element :: after →
      IsEntry element → ¬ IsAbout serial element →
      (∀ other ∈ before ++ after, ¬ IsEntry other) →
      Decides serial list element

theorem selectSingle_eq_ok :
    selectSingle serial list = .ok single ↔
      (list.filterMap ofElement?).find? (isFor serial) = some single ∨
        (list.filterMap ofElement?).find? (isFor serial) = none ∧
          list.filterMap ofElement? = [single] := by
  unfold selectSingle
  dsimp only
  cases found : (list.filterMap ofElement?).find? (isFor serial) with
  | some first => simp
  | none =>
      match list.filterMap ofElement? with
      | [] => simp
      | [_] => simp
      | _ :: _ :: _ => simp

theorem selectSingle_eq_ok_iff :
    selectSingle serial list = .ok single ↔
      ∃ element, Decides serial list element ∧ ofElement? element = some single := by
  rw [selectSingle_eq_ok, find?_eq_some_iff, find?_eq_none_iff, filterMap_eq_singleton_iff]
  constructor
  · rintro (⟨before, element, after, split, read, about, noneBefore⟩ |
      ⟨noneAbout, before, element, after, split, read, others⟩)
    · exact ⟨element, .own split (isEntry_of_read read) about noneBefore, read⟩
    · have inList : element ∈ list := by
        rw [split]
        exact List.mem_append_right before List.mem_cons_self
      have foreign := noneAbout element inList (isEntry_of_read read)
      exact ⟨element, .lone split (isEntry_of_read read) foreign others, read⟩
  · rintro ⟨element, decides, read⟩
    cases decides with
    | @own before after split _ about noneBefore =>
        exact .inl ⟨before, element, after, split, read, about, noneBefore⟩
    | @lone before after split _ foreign others =>
        refine .inr ⟨?_, before, element, after, split, read, others⟩
        intro other membership isOther
        rw [split] at membership
        rcases List.mem_append.mp membership with first | later
        · exact absurd isOther (others other (List.mem_append_left after first))
        · rcases List.mem_cons.mp later with rfl | last
          · exact foreign
          · exact absurd isOther (others other (List.mem_append_right before last))

theorem certStatus_eq_bind (response serial : List UInt8) :
    certStatus response serial = listOf response >>= fun list =>
      selectSingle serial list >>= fun single => readStatus single.status := by
  simp only [certStatus, listOf, bind_assoc]

/-- A status is given exactly if an entry decides that gives it. -/
theorem certStatus_eq_ok_iff {response : List UInt8} {status : CertStatus} :
    certStatus response serial = .ok status ↔
      ∃ list element, listOf response = .ok list ∧ Decides serial list element ∧
        Gives element status := by
  simp only [certStatus_eq_bind, bind_eq_ok_iff, selectSingle_eq_ok_iff]
  constructor
  · rintro ⟨list, listed, single, ⟨element, decides, read⟩, given⟩
    obtain ⟨others, same⟩ := ofElement?_eq_some_iff.mp read
    exact ⟨list, element, listed, decides, _, _, others, same, given⟩
  · rintro ⟨list, element, listed, decides, certId, status, others, rfl, given⟩
    exact ⟨list, listed, ⟨certId, status⟩, ⟨_, decides, rfl⟩, given⟩

/-- The status is one that an entry about the serial number gives, or there is only one response
at all. -/
def IsOwn (response serial : List UInt8) (status : CertStatus) : Prop :=
  ∃ list, listOf response = .ok list ∧
    ((∃ element ∈ list, IsAbout serial element ∧ Gives element status) ∨ list.length = 1)

/-- A readable entry about another serial number stands among other responses, none of which is
an entry. -/
def IsMixed (response serial : List UInt8) : Prop :=
  ∃ before element after status, listOf response = .ok (before ++ element :: after) ∧
    before ++ after ≠ [] ∧ (∀ other ∈ before ++ after, ¬ IsEntry other) ∧
    ¬ IsAbout serial element ∧ Gives element status

variable {response : List UInt8}

/-- From a mixed list the status of the other certificate is taken. -/
theorem IsMixed.exists_foreign (mixed : IsMixed response serial) :
    ∃ status, certStatus response serial = .ok status ∧ ¬ IsOwn response serial status := by
  obtain ⟨before, element, after, status, listed, several, others, foreign, gives⟩ := mixed
  refine ⟨status, certStatus_eq_ok_iff.mpr
    ⟨_, element, listed, .lone rfl gives.isEntry foreign others, gives⟩, ?_⟩
  rintro ⟨list, listed', origin⟩
  cases Except.ok.inj (listed.symm.trans listed')
  rcases origin with ⟨other, membership, about, givesOther⟩ | single
  · rcases List.mem_append.mp membership with first | later
    · exact others other (List.mem_append_left after first) givesOther.isEntry
    · rcases List.mem_cons.mp later with rfl | last
      · exact foreign about
      · exact others other (List.mem_append_right before last) givesOther.isEntry
  · have none : (before ++ after).length = 0 := by
      simp only [List.length_append, List.length_cons] at single ⊢
      omega
    exact several (List.length_eq_zero_iff.mp none)

/-- From any other list a status is taken only where it belongs to the serial number. -/
theorem isOwn_of_not_isMixed (unmixed : ¬ IsMixed response serial) {status : CertStatus}
    (given : certStatus response serial = .ok status) : IsOwn response serial status := by
  obtain ⟨list, element, listed, decides, gives⟩ := certStatus_eq_ok_iff.mp given
  refine ⟨list, listed, ?_⟩
  cases decides with
  | @own before after split _ about _ =>
      subst split
      exact .inl ⟨element, List.mem_append_right before List.mem_cons_self, about, gives⟩
  | @lone before after split _ foreign others =>
      subst split
      by_cases single : before ++ after = []
      · obtain ⟨rfl, rfl⟩ := List.append_eq_nil_iff.mp single
        exact .inr rfl
      · exact absurd ⟨before, element, after, status, listed, single, others, foreign, gives⟩
          unmixed

/-- Exactly when no status is taken from an answer about another certificate: every status that
is read is one about the serial number or that of a lone response, and several responses of
which none is about the serial number are always a fault, except where the list is mixed. -/
theorem ownStatus_iff (response serial : List UInt8) :
    ((∀ status, certStatus response serial = .ok status → IsOwn response serial status) ∧
      ∀ list, listOf response = .ok list → 2 ≤ list.length →
        (∀ element ∈ list, ¬ IsAbout serial element) →
          ∃ fault, certStatus response serial = .error fault) ↔
    ¬ IsMixed response serial := by
  constructor
  · rintro ⟨own, _⟩ mixed
    obtain ⟨status, given, foreign⟩ := mixed.exists_foreign
    exact foreign (own status given)
  · intro unmixed
    refine ⟨fun status given => isOwn_of_not_isMixed unmixed given, ?_⟩
    intro list listed several noneAbout
    cases given : certStatus response serial with
    | error fault => exact ⟨fault, rfl⟩
    | ok status =>
        obtain ⟨list', listed', origin⟩ := isOwn_of_not_isMixed unmixed given
        cases Except.ok.inj (listed.symm.trans listed')
        rcases origin with ⟨element, membership, about, _⟩ | single
        · exact absurd about (noneAbout element membership)
        · omega

/-- An answer with two responses: an entry about the serial number 1, which is good, and an
identification with the serial number 2 that has no status. -/
def mixedAnswer : List UInt8 :=
  [0x30, 0x78, 0x0a, 0x01, 0x00, 0xa0, 0x73, 0x30, 0x71, 0x06, 0x09, 0x2b, 0x06, 0x01, 0x05, 0x05,
    0x07, 0x30, 0x01, 0x01, 0x04, 0x64, 0x30, 0x62, 0x30, 0x57, 0xa2, 0x03, 0x04, 0x01, 0x33, 0x18,
    0x0f, 0x32, 0x30, 0x32, 0x34, 0x30, 0x36, 0x30, 0x31, 0x30, 0x30, 0x30, 0x30, 0x30, 0x30, 0x5a,
    0x30, 0x3f, 0x30, 0x27, 0x30, 0x12, 0x30, 0x07, 0x06, 0x05, 0x2b, 0x0e, 0x03, 0x02, 0x1a, 0x04,
    0x01, 0x11, 0x04, 0x01, 0x22, 0x02, 0x01, 0x01, 0x80, 0x00, 0x18, 0x0f, 0x32, 0x30, 0x32, 0x34,
    0x30, 0x36, 0x30, 0x31, 0x30, 0x30, 0x30, 0x30, 0x30, 0x30, 0x5a, 0x30, 0x14, 0x30, 0x12, 0x30,
    0x07, 0x06, 0x05, 0x2b, 0x0e, 0x03, 0x02, 0x1a, 0x04, 0x01, 0x11, 0x04, 0x01, 0x22, 0x02, 0x01,
    0x02, 0x30, 0x03, 0x06, 0x01, 0x2a, 0x03, 0x02, 0x00, 0x00]

/-- Asked about the serial number 7, the answer says good: the status of another certificate, in
a list of two. -/
theorem mixedAnswer_foreign :
    certStatus mixedAnswer [0x07] = .ok .good ∧ ¬ IsOwn mixedAnswer [0x07] .good := by
  have good : certStatus mixedAnswer [0x07] = .ok .good := by decide +kernel
  have seen : (listOf mixedAnswer).toOption.map (fun list =>
      (list.length, ((list.filterMap ofElement?).find? (isFor [0x07])).isNone)) =
        some (2, true) := by
    decide +kernel
  refine ⟨good, ?_⟩
  rintro ⟨list, listed, origin⟩
  rw [listed] at seen
  simp only [Except.toOption, Option.map_some, Option.some.injEq, Prod.mk.injEq,
    Option.isNone_iff_eq_none] at seen
  rcases origin with ⟨element, membership, about, gives⟩ | single
  · exact find?_eq_none_iff.mp seen.2 element membership gives.isEntry about
  · omega

end CertificateAudit.Ocsp
