import CertificateAudit.Der.Element
import CertificateAudit.Proofs.Der.Extent

/-!
Elements end where they say. A reader is delimited if everything it reads is settled by a front
of the bytes: the same front is read in the same way before any other rest, and no part of it is
enough (`IsDelimited`). The strict reading of elements is delimited (`isDelimited_read`), and the
front that settles it is as long as the header states (`elementSize?_of_read`).
-/

namespace CertificateAudit.Der

section

variable {α β : Type} {read : List UInt8 → Option (α × List UInt8)}

/-- The reader gives the value for this front, whatever follows it, and nothing for less. -/
structure Delimits (read : List UInt8 → Option (α × List UInt8)) (front : List UInt8)
    (value : α) : Prop where
  leaves : ∀ rest, read (front ++ rest) = some (value, rest)
  needs : ∀ size < front.length, read (front.take size) = none

/-- Whatever the reader reads is settled by a front of the bytes. -/
def IsDelimited (read : List UInt8 → Option (α × List UInt8)) : Prop :=
  ∀ bytes value rest, read bytes = some (value, rest) →
    ∃ front, bytes = front ++ rest ∧ Delimits read front value

namespace IsDelimited

theorem nothing : IsDelimited fun _ : List UInt8 => (none : Option (α × List UInt8)) := by
  intro bytes value rest done
  cases done

theorem pure (value : α) : IsDelimited fun bytes => some (value, bytes) := by
  intro bytes given rest done
  cases done
  exact ⟨[], rfl, fun _ => rfl, fun _ short => absurd short (Nat.not_lt_zero _)⟩

theorem choose (condition : Prop) [Decidable condition]
    {other : List UInt8 → Option (α × List UInt8)} (first : IsDelimited read)
    (second : IsDelimited other) :
    IsDelimited fun bytes => if condition then read bytes else other bytes := by
  by_cases holds : condition
  · simpa only [if_pos holds] using first
  · simpa only [if_neg holds] using second

/-- What does not depend on the bytes, and then a reader that depends on it. -/
theorem given {γ : Type} (value? : Option γ) {next : γ → List UInt8 → Option (α × List UInt8)}
    (delimited : ∀ value, IsDelimited (next value)) :
    IsDelimited fun bytes => value?.bind fun value => next value bytes := by
  cases value? with
  | none => exact nothing
  | some value => exact delimited value

/-- One byte, and then what depends on it. -/
theorem cons {next : UInt8 → List UInt8 → Option (α × List UInt8)}
    (delimited : ∀ b, IsDelimited (next b)) :
    IsDelimited fun
      | [] => none
      | b :: rest => next b rest := by
  intro bytes value rest done
  cases bytes with
  | nil => cases done
  | cons b bytes =>
      obtain ⟨front, rfl, leaves, needs⟩ := delimited b bytes value rest done
      refine ⟨b :: front, rfl, leaves, ?_⟩
      intro size short
      cases size with
      | zero => rfl
      | succ size => exact needs size (Nat.lt_of_succ_lt_succ short)

/-- A stated number of bytes, and a value taken from them. -/
theorem take (count : Nat) (value? : List UInt8 → Option α) :
    IsDelimited fun bytes =>
      if bytes.length < count then none
      else (value? (bytes.take count)).map fun value => (value, bytes.drop count) := by
  intro bytes value rest done
  dsimp only at done
  split at done
  case isTrue => cases done
  case isFalse present =>
    obtain ⟨given, taken, same⟩ := Option.map_eq_some_iff.mp done
    obtain ⟨rfl, rfl⟩ := Prod.mk.inj same
    have length : (bytes.take count).length = count :=
      List.length_take_of_le (Nat.le_of_not_lt present)
    refine ⟨bytes.take count, (List.take_append_drop count bytes).symm, ?_, ?_⟩
    · intro rest
      have enough : ¬ (bytes.take count ++ rest).length < count := by
        rw [List.length_append, length]
        omega
      rw [if_neg enough, List.take_left' length, List.drop_left' length, taken]
      rfl
    · intro size short
      apply if_pos
      exact Nat.lt_of_le_of_lt (List.length_take_le size _) (by rwa [length] at short)

/-- One reader, and then another that depends on what it read. -/
theorem bind {next : α → List UInt8 → Option (β × List UInt8)} (first : IsDelimited read)
    (second : ∀ value, IsDelimited (next value)) :
    IsDelimited fun bytes => (read bytes).bind fun found => next found.1 found.2 := by
  intro bytes value rest done
  obtain ⟨⟨given, middle⟩, found, continued⟩ := Option.bind_eq_some_iff.mp done
  obtain ⟨front, rfl, leaves, needs⟩ := first bytes given middle found
  obtain ⟨further, rfl, leavesNext, needsNext⟩ := second given middle value rest continued
  refine ⟨front ++ further, (List.append_assoc _ _ _).symm, ?_, ?_⟩
  · intro rest
    rw [List.append_assoc, leaves]
    exact leavesNext rest
  · intro size short
    -- The cut is in the front of the first reader or in that of the second.
    by_cases early : size < front.length
    · rw [List.take_append_of_le_length (Nat.le_of_lt early), needs size early]
      rfl
    · rw [List.length_append] at short
      rw [List.take_append, List.take_of_length_le (Nat.le_of_not_lt early), leaves]
      exact needsNext (size - front.length) (by omega)

end IsDelimited

end

theorem isDelimited_readTagNumber (remaining number : Nat) :
    IsDelimited (readTagNumber remaining number) := by
  induction remaining generalizing number with
  | zero => exact .nothing
  | succ remaining inductionHypothesis =>
      have delimited := IsDelimited.cons fun b =>
        let next := (number * 128 + b.toNat % 128) % 4294967296
        IsDelimited.choose (b < 0x80) (.pure next) (inductionHypothesis next)
      convert delimited using 1
      funext bytes
      cases bytes <;> rfl

theorem isDelimited_readTag :
    IsDelimited fun bytes =>
      (readTag bytes).map fun (tag, constructed, rest) => ((tag, constructed), rest) := by
  have delimited := IsDelimited.cons fun b =>
    IsDelimited.choose (b.toNat % 32 = 31)
      (.bind (isDelimited_readTagNumber 5 0) fun number =>
        .pure ((⟨.ofByte b, number⟩, isConstructed b) : Tag × Bool))
      (.pure (⟨.ofByte b, b.toNat % 32⟩, isConstructed b))
  convert delimited using 1
  funext bytes
  cases bytes with
  | nil => rfl
  | cons b bytes =>
      rw [readTag]
      dsimp only
      split
      case isTrue => cases readTagNumber 5 0 bytes <;> rfl
      case isFalse => rfl

/-- The length that a run of bytes denotes, if it is not too large. -/
def statedLength? (bytes : List UInt8) : Option (Option Nat) :=
  if 18446744073709551616 ≤ unsigned bytes then none else some (some (unsigned bytes))

theorem isDelimited_readLength : IsDelimited readLength := by
  have delimited := IsDelimited.cons fun b =>
    IsDelimited.choose (b < 0x80) (.pure (some b.toNat))
      (.choose (b = 0x80) (.pure none)
        (.choose (b = 0xff) .nothing (.take (b.toNat - 0x80) statedLength?)))
  convert delimited using 1
  funext bytes
  cases bytes with
  | nil => rfl
  | cons b bytes =>
      rw [readLength]
      dsimp only [statedLength?]
      grind

theorem isDelimited_readHeader : IsDelimited readHeader := by
  have delimited := IsDelimited.bind isDelimited_readTag fun tag =>
    IsDelimited.bind isDelimited_readLength fun length =>
      IsDelimited.choose (length = none ∧ tag.2 = false) .nothing
        (.pure (⟨tag.1, tag.2, length⟩ : Header))
  convert delimited using 1
  funext bytes
  rw [readHeader]
  cases readTag bytes <;> rfl

theorem isDelimited_readItem : IsDelimited readItem := by
  have delimited := IsDelimited.bind isDelimited_readHeader fun header =>
    IsDelimited.given header.length fun length =>
      .take length fun content => some (⟨header.tag, header.constructed, content⟩ : Item)
  exact delimited

theorem isDelimited_read : IsDelimited Element.read := by
  have delimited := IsDelimited.bind isDelimited_readItem fun item =>
    IsDelimited.choose (item.content.length ≤ Element.maxSize ∧ Element.isStrict item)
      (.given (Element.ofItem maxDepth item) fun element => .pure element) .nothing
  exact delimited

/-- The size of the element at the front of the bytes, as its header gives it: the header itself
and as much content as it states. -/
def elementSize? (bytes : List UInt8) : Option Nat := do
  let (header, body) ← readHeader bytes
  let length ← header.length
  pure (bytes.length - body.length + length)

/-- What is read off the front of the bytes is as long as its header says. -/
theorem elementSize?_of_read {front rest : List UInt8} {element : Element}
    (done : Element.read (front ++ rest) = some (element, rest)) :
    elementSize? (front ++ rest) = some front.length := by
  obtain ⟨⟨item, behind⟩, cut, checked⟩ := Option.bind_eq_some_iff.mp done
  have same : behind = rest := by
    dsimp only at checked
    split at checked
    case isTrue =>
      obtain ⟨_, _, same⟩ := Option.bind_eq_some_iff.mp checked
      exact (Prod.mk.inj (Option.some.inj same)).2
    case isFalse => cases checked
  obtain ⟨⟨header, body⟩, headerRead, cut⟩ := Option.bind_eq_some_iff.mp cut
  obtain ⟨length, stated, cut⟩ := Option.bind_eq_some_iff.mp cut
  split at cut
  case isTrue => cases cut
  case isFalse present =>
    have left : (body.drop length).length = rest.length := by
      rw [← same, (Prod.mk.inj (Option.some.inj cut)).2]
    have shorter := (readHeader_extent headerRead).1.length_le
    simp only [elementSize?, headerRead, stated, Option.bind_eq_bind, Option.bind_some,
      Option.pure_def, Option.some.injEq]
    simp only [List.length_append, List.length_drop] at left shorter ⊢
    omega

end CertificateAudit.Der
