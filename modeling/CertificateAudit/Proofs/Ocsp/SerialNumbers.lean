import CertificateAudit.Proofs.Ocsp.Selection

/-!
Serial numbers are numbers. Byte strings that differ only in zero bytes in front denote the same
number and no others do (`differInZeros_iff`), and such bytes decide nothing: neither in the serial
number that is asked for (`selectSingle_eq_iff`) nor in those that an answer names
(`selectSingle_status`).
-/

namespace CertificateAudit.Der

/-- The byte strings are the same but for zero bytes in front. -/
def DifferInZeros (left right : List UInt8) : Prop :=
  ∃ zeros zeros' bytes,
    left = List.replicate zeros 0 ++ bytes ∧ right = List.replicate zeros' 0 ++ bytes

theorem unsigned_replicate_append (zeros : Nat) (bytes : List UInt8) :
    unsigned (List.replicate zeros 0 ++ bytes) = unsigned bytes := by
  induction zeros with
  | zero => rfl
  | succ zeros inductionHypothesis =>
      rw [List.replicate_succ, List.cons_append]
      exact inductionHypothesis

theorem exists_replicate_append_trimZeros (bytes : List UInt8) :
    ∃ zeros, bytes = List.replicate zeros 0 ++ trimZeros bytes := by
  refine ⟨(bytes.takeWhile (· == 0)).length, ?_⟩
  have front : bytes.takeWhile (· == 0) =
      List.replicate (bytes.takeWhile (· == 0)).length 0 := by
    refine List.eq_replicate_of_mem ?_
    intro b membership
    exact beq_iff_eq.mp (List.all_eq_true.mp List.all_takeWhile b membership)
  rw [← front]
  exact List.takeWhile_append_dropWhile.symm

theorem differInZeros_iff {left right : List UInt8} :
    DifferInZeros left right ↔ unsigned left = unsigned right := by
  constructor
  · rintro ⟨zeros, zeros', bytes, rfl, rfl⟩
    rw [unsigned_replicate_append, unsigned_replicate_append]
  · intro same
    obtain ⟨zeros, spelled⟩ := exists_replicate_append_trimZeros left
    obtain ⟨zeros', spelled'⟩ := exists_replicate_append_trimZeros right
    rw [← trimZeros_eq_iff.mpr same] at spelled'
    exact ⟨zeros, zeros', _, spelled, spelled'⟩

end CertificateAudit.Der

namespace CertificateAudit.Ocsp

open CertificateAudit.Der

/-! The serial number that is asked for. -/

variable {asked other : List UInt8}

theorem SingleResponse.isFor_congr (same : unsigned asked = unsigned other) :
    isFor asked = isFor other := by
  funext single
  unfold isFor
  rw [trimZeros_eq_iff.mpr same]

theorem selectSingle_congr (same : unsigned asked = unsigned other) (list : List Element) :
    selectSingle asked list = selectSingle other list := by
  unfold selectSingle
  rw [SingleResponse.isFor_congr same]

/-- A good entry about the serial number. -/
def goodEntry (serial : List UInt8) : SingleResponse where
  certId := .sequence [.leaf ⟨.universal, 2⟩ (.integer serial)]
  status := .leaf ⟨.contextSpecific, 0⟩ (.raw [])

theorem isFor_goodEntry (asked serial : List UInt8) :
    (goodEntry serial).isFor asked = (unsigned serial == unsigned asked) := by
  rw [← trimZeros_beq]
  rfl

/-- Of two entries about different numbers each is selected for its own. -/
theorem selectSingle_eq_iff :
    (∀ list, selectSingle asked list = selectSingle other list) ↔
      unsigned asked = unsigned other := by
  refine ⟨?_, selectSingle_congr⟩
  intro alike
  by_contra differ
  let entries := [goodEntry asked, goodEntry other]
  let list := entries.map fun single => Element.sequence [single.certId, single.status]
  have read : list.filterMap SingleResponse.ofElement? = entries := rfl
  have foreign : (goodEntry asked).isFor other = false := by
    rw [isFor_goodEntry]
    exact beq_eq_false_iff_ne.mpr differ
  have first : selectSingle asked list = .ok (goodEntry asked) := by
    simp [selectSingle, read, entries, isFor_goodEntry]
  have second : selectSingle other list = .ok (goodEntry other) := by
    simp [selectSingle, read, entries, foreign, isFor_goodEntry]
  have same : goodEntry asked = goodEntry other :=
    Except.ok.inj (first.symm.trans ((alike list).trans second))
  rw [same, isFor_goodEntry, beq_self_eq_true] at foreign
  cases foreign

/-! The serial numbers that an answer names. -/

/-- The elements are the same, or they are about the same serial number with more or fewer zero
bytes in front. -/
inductive SameButZeros : Element → Element → Prop where
  | same {element} : SameButZeros element element
  | padded {ids tag bytes bytes' others} :
      DifferInZeros bytes bytes' →
      SameButZeros (.sequence (.sequence (ids ++ [.leaf tag (.integer bytes)]) :: others))
        (.sequence (.sequence (ids ++ [.leaf tag (.integer bytes')]) :: others))

/-- The entries have the same status and are about the same serial numbers. -/
def SingleResponse.Agrees (single other : SingleResponse) : Prop :=
  single.status = other.status ∧ ∀ serial, single.isFor serial = other.isFor serial

theorem SameButZeros.agrees {element element' : Element} (same : SameButZeros element element') :
    Option.Rel SingleResponse.Agrees (SingleResponse.ofElement? element)
      (SingleResponse.ofElement? element') := by
  cases same with
  | same =>
      cases SingleResponse.ofElement? element with
      | none => exact .none
      | some single => exact .some ⟨rfl, fun _ => rfl⟩
  | @padded ids tag bytes bytes' others differ =>
      cases others with
      | nil => exact .none
      | cons status others =>
          refine .some ⟨rfl, ?_⟩
          intro serial
          have trimmed := trimZeros_eq_iff.mpr (differInZeros_iff.mp differ)
          simp [SingleResponse.isFor, Element.items?, Element.integer?, trimmed]

section

variable {singles singles' : List SingleResponse}
  (agree : List.Forall₂ SingleResponse.Agrees singles singles')
include agree

theorem find?_agrees (serial : List UInt8) :
    Option.Rel SingleResponse.Agrees (singles.find? (SingleResponse.isFor serial))
      (singles'.find? (SingleResponse.isFor serial)) := by
  induction agree with
  | nil => exact .none
  | @cons single other _ _ first _ inductionHypothesis =>
      rw [List.find?_cons, List.find?_cons, ← first.2 serial]
      cases single.isFor serial with
      | true => exact .some first
      | false => exact inductionHypothesis

end

theorem selectSingle_status {list list' : List Element}
    (same : List.Forall₂ SameButZeros list list') (serial : List UInt8) :
    (selectSingle serial list).map SingleResponse.status =
      (selectSingle serial list').map SingleResponse.status := by
  have agree : List.Forall₂ SingleResponse.Agrees (list.filterMap SingleResponse.ofElement?)
      (list'.filterMap SingleResponse.ofElement?) :=
    List.rel_filterMap (fun _ _ same => SameButZeros.agrees same) same
  have first := find?_agrees agree serial
  unfold selectSingle
  dsimp only
  generalize list.filterMap SingleResponse.ofElement? = singles at agree first ⊢
  generalize list'.filterMap SingleResponse.ofElement? = singles' at agree first ⊢
  generalize singles.find? (SingleResponse.isFor serial) = found at first ⊢
  generalize singles'.find? (SingleResponse.isFor serial) = found' at first ⊢
  cases first with
  | some first => exact congrArg Except.ok first.1
  | none =>
      cases agree with
      | nil => rfl
      | cons only others =>
          cases others with
          | nil => exact congrArg Except.ok only.1
          | cons _ _ => rfl

/-- Serial numbers are compared as unsigned numbers. Two byte strings are the same without their
leading zero bytes exactly if they denote the same number, hence exactly if nothing but such bytes
tells them apart. Which entry is selected for a serial number depends on its number and on nothing
else of it, and not on the zero bytes that the entries have in front; and no answer gives another
status, or another fault, for a serial number with more or fewer zero bytes in front. -/
theorem serials_compared_as_numbers :
    (∀ left right : List UInt8,
      (trimZeros left = trimZeros right ↔ unsigned left = unsigned right) ∧
      (unsigned left = unsigned right ↔ DifferInZeros left right)) ∧
    (∀ asked other : List UInt8,
      (∀ list, selectSingle asked list = selectSingle other list) ↔
        unsigned asked = unsigned other) ∧
    (∀ (list list' : List Element) (asked : List UInt8), List.Forall₂ SameButZeros list list' →
      (selectSingle asked list).map SingleResponse.status =
        (selectSingle asked list').map SingleResponse.status) ∧
    ∀ response asked other : List UInt8, DifferInZeros asked other →
      certStatus response asked = certStatus response other := by
  refine ⟨?_, ?_, ?_, ?_⟩
  · exact fun left right => ⟨trimZeros_eq_iff, differInZeros_iff.symm⟩
  · exact fun asked other => selectSingle_eq_iff
  · exact fun list list' asked same => selectSingle_status same asked
  · intro response asked other differ
    rw [certStatus_eq_bind, certStatus_eq_bind]
    refine congrArg _ (funext fun list => ?_)
    rw [selectSingle_congr (differInZeros_iff.mp differ)]

theorem serials_compared_as_numbers_padded :
    trimZeros [0x00, 0x00] = trimZeros [] ∧
    DifferInZeros [0x01] [0x00, 0x00, 0x01] ∧
    certStatus mixedAnswer [0x00, 0x00, 0x01] = .ok .good := by
  have padded : DifferInZeros [0x01] [0x00, 0x00, 0x01] := ⟨0, 2, [0x01], rfl, rfl⟩
  have good : certStatus mixedAnswer [0x01] = .ok .good := by decide +kernel
  refine ⟨?_, padded, ?_⟩
  · exact (serials_compared_as_numbers.1 _ _).1.mpr rfl
  · rw [← serials_compared_as_numbers.2.2.2 mixedAnswer _ _ padded]
    exact good

end CertificateAudit.Ocsp
