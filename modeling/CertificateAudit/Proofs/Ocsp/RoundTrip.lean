import CertificateAudit.Proofs.Ocsp.Encoding

/-!
Reading undoes the writing of answers: `certStatus_encode`. The layers are taken off one after
the other, each by `Value.read_encode_sequence`; then the entries are compared with the serial
number that was asked for.
-/

namespace CertificateAudit.Ocsp

open CertificateAudit.Calendar CertificateAudit.Der CertificateAudit.Text

theorem frontOfSize?_ascii {front : List Char} (ascii : IsAscii front) (rest : List Char) :
    frontOfSize? front.length (front ++ rest) = some front := by
  induction front with
  | nil => simp [frontOfSize?]
  | cons c front inductionHypothesis =>
      have single : c.utf8Size = 1 :=
        Char.utf8Size_eq_one_iff.mpr (UInt32.le_iff_toNat_le.mpr
          (Nat.le_of_lt_succ (ascii c List.mem_cons_self)))
      have others := inductionHypothesis
        fun other membership => ascii other (List.mem_cons_of_mem c membership)
      simp [frontOfSize?, single, others]

theorem readTime_bytes (stamp : Stamp) : readTime stamp.bytes = .ok stamp.moment := by
  have text := Utf8.decode?_asciiBytes stamp.isAscii_digits
  have front : frontOfSize? 14 (stamp.digits ++ ['Z']) = some stamp.digits := by
    rw [← stamp.length_digits]
    exact frontOfSize?_ascii
      (fun c membership => stamp.isAscii_digits c (List.mem_append_left _ membership)) _
  simp only [readTime, Stamp.bytes, text, front, stamp.readMoment_digits]

namespace Standing

theorem readRevocation_revocation (time : Stamp) (reason : Option UInt8) :
    readRevocation (revocation time reason) =
      .ok (.revoked time.moment (reason.map reasonName)) := by
  have size : time.bytes.length = 15 := by
    simp [Stamp.bytes, asciiBytes, time.length_digits]
  have written : revocation time reason = 0x18 :: 15 :: (time.bytes ++
      reason.toList.flatMap fun code => Der.encode 0xa0 (Der.encode 0x0a [code])) := by
    simp only [revocation, Der.encode, size]
    rfl
  have behind : readReason (reason.toList.flatMap fun code =>
      Der.encode 0xa0 (Der.encode 0x0a [code])) = reason.map reasonName := by
    cases reason <;> rfl
  have fits : (15 : UInt8).toNat ≤ (time.bytes ++ reason.toList.flatMap fun code =>
      Der.encode 0xa0 (Der.encode 0x0a [code])).length ∧ (15 : UInt8) < 0x80 := by
    refine ⟨?_, by decide⟩
    rw [List.length_append, size]
    exact Nat.le_add_right _ _
  rw [written, readRevocation, if_pos fits]
  have split : (15 : UInt8).toNat = time.bytes.length := size.symm
  rw [split, List.take_left, List.drop_left, readTime_bytes, behind]
  rfl

theorem readStatus_element (standing : Standing) :
    readStatus standing.value.element = .ok standing.status := by
  cases standing with
  | good => rw [value, Value.element_context]; rfl
  | revoked time reason =>
      rw [value, Value.element_context]
      exact readRevocation_revocation time reason
  | unknown => rw [value, Value.element_context]; rfl

end Standing

namespace Entry

def single (entry : Entry) : SingleResponse where
  certId := entry.certId.element
  status := entry.standing.value.element

theorem ofElement?_element (entry : Entry) :
    SingleResponse.ofElement? entry.value.element = some entry.single := by
  simp [SingleResponse.ofElement?, value, Value.element, Value.elements, Element.items?, single]

theorem isFor_single (serial : List UInt8) (entry : Entry) :
    entry.single.isFor serial = entry.isAbout serial := by
  simp [SingleResponse.isFor, single, certId, Value.element, Value.elements, Element.items?,
    Value.integer, Element.integer?, isAbout, trimZeros_beq]

end Entry

theorem selectSingle_entries (serial : List UInt8) (entries : List Entry) :
    selectSingle serial (entries.map fun entry => entry.value.element) =
      match Entry.deciding? serial entries with
      | some entry => .ok entry.single
      | none => .error .noMatchingResponse := by
  have singles : (entries.map fun entry => entry.value.element).filterMap
      SingleResponse.ofElement? = entries.map Entry.single := by
    induction entries with
    | nil => rfl
    | cons entry entries inductionHypothesis =>
        simp [Entry.ofElement?_element, inductionHypothesis]
  have about : (SingleResponse.isFor serial) ∘ Entry.single = Entry.isAbout serial := by
    funext entry
    exact entry.isFor_single serial
  simp only [selectSingle, Entry.deciding?, singles, List.find?_map, about]
  cases entries.find? (Entry.isAbout serial) with
  | some entry => rfl
  | none =>
      match entries with
      | [] => rfl
      | [_] => rfl
      | _ :: _ :: _ => rfl

namespace Answer

variable {answer : Answer}

theorem readElement_encode_sequence {items : List Value}
    (shallow : (Value.sequence items).depth ≤ maxDepth)
    (small : (Value.sequence items).encode.length ≤ Element.maxSize) :
    readElement (Value.sequence items).encode = .ok (.sequence (items.map Value.element)) := by
  have read := Value.read_encode_sequence shallow small []
  rw [List.append_nil, Value.elements_eq_map] at read
  rw [readElement, read]

/-- Whatever stands before the entries is not a sequence. -/
theorem findSome?_fields (answer : Answer) :
    (answer.fields.map Value.element).findSome? Element.items? =
      some (answer.entries.map fun entry => entry.value.element) := by
  have ofVersion : ((answer.version.toList.map fun version =>
      Value.context true 0 (Der.encode 0x02 version)).map Value.element).findSome?
        Element.items? = none := by
    cases answer.version <;> simp [Element.items?]
  have ofResponder : answer.responder.value.element.items? = none := by
    cases answer.responder <;> simp [Responder.value, Element.items?]
  have ofTime : (Value.time answer.producedAt answer.noLeap).element.items? = none := by
    simp [Value.time, Value.element, Element.items?]
  have ofEntries : (Value.sequence (answer.entries.map Entry.value)).element.items? =
      some (answer.entries.map fun entry => entry.value.element) := by
    simp [Value.element, Value.elements_eq_map, Element.items?, Function.comp_def]
  rw [fields, List.map_append, List.findSome?_append, ofVersion]
  simp [ofResponder, ofTime, ofEntries]

theorem responses_basic (shallow : answer.basic.depth ≤ maxDepth)
    (small : answer.basic.encode.length ≤ Element.maxSize) :
    responses answer.basic.encode =
      .ok (answer.entries.map fun entry => entry.value.element) := by
  have read : readElement answer.basic.encode = .ok _ :=
    readElement_encode_sequence shallow small
  have data : (Value.sequence answer.fields).element =
      .sequence (answer.fields.map Value.element) := by
    rw [Value.element, Value.elements_eq_map]
  have found := answer.findSome?_fields
  simp only [responses, read, bind, Except.bind, itemsOf, Element.items?, List.map_cons,
    List.head?_cons, data, found]
  rfl

theorem basicResponse_typed (small : answer.typed.encode.length ≤ Element.maxSize) :
    basicResponse answer.typed.encode = .ok answer.basic.encode := by
  have shallow : answer.typed.depth ≤ maxDepth := by
    simp [typed, Value.depth, Value.depths, Value.objectId, Value.octetString, maxDepth]
  have read : readElement answer.typed.encode = .ok _ :=
    readElement_encode_sequence shallow small
  have isBasic : ObjectId.text basicType = basicResponseType := by decide
  simp only [basicResponse, read, bind, Except.bind, itemsOf, Element.items?, List.map_cons,
    List.head?_cons, Value.objectId, Value.element, Option.bind_some, Element.objectIdText?,
    isBasic, if_true]
  rfl

theorem responseBytes_whole (small : answer.whole.encode.length ≤ Element.maxSize) :
    responseBytes answer.whole.encode = .ok answer.typed.encode := by
  have shallow : answer.whole.depth ≤ maxDepth := by
    simp [whole, Value.depth, Value.depths, Value.enumerated, Value.context, maxDepth]
  have read : readElement answer.whole.encode = .ok _ :=
    readElement_encode_sequence shallow small
  simp only [responseBytes, read, bind, Except.bind, itemsOf, Element.items?, List.map_cons,
    List.head?_cons, Value.enumerated, Value.element, Option.bind_some, Element.enumerated?]
  simp [ResponderStatus.ofCode?, Element.bytes?, pure, Except.pure]

/-- From an answer that was written, what it says is read, for every serial number. The two
limits are those of the reader. -/
theorem certStatus_encode (shallow : answer.basic.depth ≤ maxDepth)
    (small : answer.encode.length ≤ Element.maxSize) (serial : List UInt8) :
    certStatus answer.encode serial = answer.statusOf serial := by
  have typedInside : answer.typed.encode.length < answer.whole.encode.length :=
    @Value.length_content_lt_sequence (.context true 0 answer.typed.encode) _ (by simp)
  have basicInside : answer.basic.encode.length < answer.typed.encode.length :=
    @Value.length_content_lt_sequence (.octetString answer.basic.encode) _ (by simp)
  unfold encode at small ⊢
  have outer := responseBytes_whole small
  have inner := @basicResponse_typed answer (by omega)
  have entries := responses_basic shallow (by omega)
  simp only [certStatus, outer, inner, entries, bind, Except.bind]
  rw [selectSingle_entries, statusOf]
  cases Entry.deciding? serial answer.entries with
  | some entry => exact entry.standing.readStatus_element
  | none => rfl

/-- The twelfth of June 2024, at noon. -/
def sampleTime : Stamp where
  moment := ⟨⟨2024, 6, 12, by decide, by decide⟩, 12, 0, 0, by decide⟩
  fourDigits := by decide

/-- The entry of a certificate, with hashes of one byte. -/
def sampleEntry (serial : List UInt8) (standing : Standing) : Entry where
  hashAlgorithm := ⟨[0x2b, 0x0e, 0x03, 0x02, 0x1a], some (.leaf 5 [] .other (by decide) rfl)⟩
  nameHash := [0x01]
  keyHash := [0x02]
  serial := serial
  standing := standing
  thisUpdate := sampleTime
  noLeap := by decide
  nextUpdate := some sampleTime
  extensions := none

/-- An answer about two certificates. -/
def sample : Answer where
  version := some [0x00]
  responder := .byKey [0x03]
  producedAt := sampleTime
  noLeap := by decide
  entries := [sampleEntry [0x05] .good, sampleEntry [0x00, 0x80] (.revoked sampleTime (some 1))]
  extensions := none
  algorithm := ⟨[0x2a], none⟩
  unusedBits := 0
  signature := [0x04]
  certificates := some []

theorem certStatus_encode_sample :
    sample.basic.depth ≤ maxDepth ∧ sample.encode.length ≤ Element.maxSize ∧
      certStatus sample.encode [0x80] =
        .ok (.revoked sampleTime.moment (some "keyCompromise")) := by
  have shallow : sample.basic.depth ≤ maxDepth := by decide +kernel
  have small : sample.encode.length ≤ Element.maxSize := by decide +kernel
  exact ⟨shallow, small, certStatus_encode shallow small [0x80]⟩

end Answer

end CertificateAudit.Ocsp
