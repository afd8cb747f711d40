import CertificateAudit.Proofs.Ocsp.Selection
import CertificateAudit.Proofs.Text.Utf8

/-!
Status elements. `Tells` says which elements stand for which status: the context tag decides, and a
revocation has to begin with its time. Exactly these are read (`readStatus_eq_ok_iff`).
-/

namespace CertificateAudit.Ocsp

open CertificateAudit.Calendar CertificateAudit.Der CertificateAudit.Text

/-- What follows the time of a revocation starts with a reason in its usual form, or else there is
no reason. -/
inductive HasReason : List UInt8 → Option String → Prop where
  | usual {code others} :
      HasReason (0xa0 :: 0x03 :: 0x0a :: 0x01 :: code :: others) (some (reasonName code))
  | none {rest} :
      (∀ code others, rest ≠ 0xa0 :: 0x03 :: 0x0a :: 0x01 :: code :: others) → HasReason rest none

/-- The content of a revocation: a time element whose length is a single byte and whose first
fourteen bytes spell the time, and perhaps a reason. -/
inductive IsRevocation : List UInt8 → Moment → Option String → Prop where
  | intro {length text rest digits time reason} :
      length < 0x80 → length.toNat = text.length → Utf8.isValid text = true →
      14 ≤ text.length → Utf8.decode? (text.take 14) = some digits →
      Pattern.compact.readMoment digits = .ok time → HasReason rest reason →
      IsRevocation (0x18 :: length :: (text ++ rest)) time reason

/-- The status that a status element stands for, by its context tag. -/
inductive Tells : Element → CertStatus → Prop where
  | good {content} : Tells (.leaf ⟨.contextSpecific, 0⟩ (.raw content)) .good
  | revoked {content time reason} :
      IsRevocation content time reason →
      Tells (.leaf ⟨.contextSpecific, 1⟩ (.raw content)) (.revoked time reason)
  | unknown {content} : Tells (.leaf ⟨.contextSpecific, 2⟩ (.raw content)) .unknown

theorem readReason_eq_iff {rest : List UInt8} {reason : Option String} :
    readReason rest = reason ↔ HasReason rest reason := by
  constructor
  · rintro rfl
    unfold readReason
    split
    case h_1 => exact .usual
    case h_2 unusual => exact .none fun code others same => unusual code others same
  · intro has
    cases has with
    | usual => rfl
    | none unusual =>
        unfold readReason
        split
        case h_1 code others => exact absurd rfl (unusual code others)
        case h_2 => rfl

theorem encode_cons_length (c : Char) (text : List Char) :
    (Utf8.encode (c :: text)).length = c.utf8Size + (Utf8.encode text).length := by
  simp [Utf8.encode, String.length_utf8EncodeChar]

theorem encode_length_eq_zero {text : List Char} :
    (Utf8.encode text).length = 0 ↔ text = [] := by
  cases text with
  | nil => exact ⟨fun _ => rfl, fun _ => rfl⟩
  | cons c text =>
      have positive := c.utf8Size_pos
      rw [encode_cons_length]
      exact ⟨fun empty => by omega, fun impossible => nomatch impossible⟩

theorem frontOfSize?_zero (text : List Char) : frontOfSize? 0 text = some [] := by
  cases text <;> rfl

theorem frontOfSize?_eq_some_iff {size : Nat} {text front : List Char} :
    frontOfSize? size text = some front ↔
      ∃ rest, text = front ++ rest ∧ (Utf8.encode front).length = size := by
  induction text generalizing size front with
  | nil =>
      cases size with
      | zero =>
          simp only [frontOfSize?_zero, Option.some.injEq, encode_length_eq_zero]
          exact ⟨fun empty => ⟨[], by simp [← empty]⟩, fun ⟨_, _, empty⟩ => empty.symm⟩
      | succ size => cases front <;> simp [frontOfSize?, Utf8.encode]
  | cons c text inductionHypothesis =>
      cases size with
      | zero =>
          simp only [frontOfSize?_zero, Option.some.injEq, encode_length_eq_zero]
          exact ⟨fun empty => ⟨c :: text, by simp [← empty]⟩, fun ⟨_, _, empty⟩ => empty.symm⟩
      | succ size =>
          cases front with
          | nil => simp [frontOfSize?, Utf8.encode]
          | cons first front =>
              simp only [frontOfSize?, Option.ite_none_right_eq_some, Option.map_eq_some_iff,
                inductionHypothesis, encode_cons_length, List.cons.injEq, List.cons_append]
              constructor
              · rintro ⟨fits, front, ⟨rest, rfl, filled⟩, rfl, rfl⟩
                exact ⟨rest, ⟨rfl, rfl⟩, by omega⟩
              · rintro ⟨rest, ⟨rfl, rfl⟩, filled⟩
                exact ⟨by omega, front, ⟨rest, rfl, by omega⟩, rfl, rfl⟩

/-- The front of a text with so many bytes is what the first bytes of its spelling spell. -/
theorem frontOfSize?_iff_decode? {bytes : List UInt8} {text front : List Char} {size : Nat}
    (reads : Utf8.decode? bytes = some text) :
    frontOfSize? size text = some front ↔
      size ≤ bytes.length ∧ Utf8.decode? (bytes.take size) = some front := by
  rw [frontOfSize?_eq_some_iff, Utf8.decode?_eq_some_iff]
  obtain rfl := Utf8.decode?_eq_some_iff.mp reads
  constructor
  · rintro ⟨rest, rfl, rfl⟩
    have split : Utf8.encode (front ++ rest) = Utf8.encode front ++ Utf8.encode rest :=
      List.flatMap_append
    rw [split, List.take_left, List.length_append]
    exact ⟨Nat.le_add_right _ _, rfl⟩
  · rintro ⟨enough, taken⟩
    have split : Utf8.encode text = Utf8.encode front ++ (Utf8.encode text).drop size := by
      rw [← taken, List.take_append_drop]
    have read := Utf8.scan_encode_append text []
    have readSplit := Utf8.scan_encode_append front ((Utf8.encode text).drop size)
    rw [← split] at readSplit
    rw [List.append_nil, readSplit, show Utf8.scan none [] = [] from rfl, List.append_nil] at read
    obtain ⟨first, rest, rfl, isFront, _⟩ := List.append_eq_map_iff.mp read
    have same : first = front :=
      List.map_injective_iff.mpr (fun _ _ => Option.some.inj) isFront
    refine ⟨rest, by rw [same], ?_⟩
    rw [← taken, List.length_take_of_le enough]

theorem readTime_eq_ok_iff {text : List UInt8} {time : Moment} :
    readTime text = .ok time ↔
      Utf8.isValid text = true ∧ 14 ≤ text.length ∧
        ∃ digits, Utf8.decode? (text.take 14) = some digits ∧
          Pattern.compact.readMoment digits = .ok time := by
  unfold readTime Utf8.isValid
  cases reads : Utf8.decode? text with
  | none => simp
  | some chars =>
      simp only [Option.isSome_some, true_and]
      cases front : frontOfSize? 14 chars with
      | none =>
          simp only [reduceCtorEq, false_iff]
          rintro ⟨enough, digits, taken, _⟩
          cases front.symm.trans ((frontOfSize?_iff_decode? reads).mpr ⟨enough, taken⟩)
      | some digits =>
          obtain ⟨enough, taken⟩ := (frontOfSize?_iff_decode? reads).mp front
          simp only [enough, taken, Option.some.injEq, exists_eq_left', true_and]
          cases Pattern.compact.readMoment digits <;> simp

theorem readRevocation_eq_ok_iff {content : List UInt8} {status : CertStatus} :
    readRevocation content = .ok status ↔
      ∃ time reason, status = .revoked time reason ∧ IsRevocation content time reason := by
  constructor
  · intro given
    unfold readRevocation at given
    split at given
    case h_1 length rest =>
      split at given
      case isTrue fits =>
        obtain ⟨time, timed, given⟩ := bind_eq_ok_iff.mp given
        obtain rfl := Except.ok.inj given
        obtain ⟨valid, enough, digits, taken, moment⟩ := readTime_eq_ok_iff.mp timed
        refine ⟨time, _, rfl, ?_⟩
        have named := readReason_eq_iff.mp (rfl : readReason (rest.drop length.toNat) = _)
        have revocation := IsRevocation.intro fits.2 (List.length_take_of_le fits.1).symm valid
          enough taken moment named
        rwa [List.take_append_drop] at revocation
      case isFalse => cases given
    case h_2 => cases given
  · rintro ⟨time, reason, rfl, revocation⟩
    cases revocation with
    | @intro length text rest digits _ _ short filled valid enough taken moment named =>
        have fits : text.length ≤ (text ++ rest).length ∧ length < 0x80 := by
          rw [List.length_append]
          exact ⟨Nat.le_add_right _ _, short⟩
        have timed := readTime_eq_ok_iff.mpr ⟨valid, enough, digits, taken, moment⟩
        simp only [readRevocation, filled, if_pos fits, List.take_left, List.drop_left, timed,
          readReason_eq_iff.mpr named]
        rfl

theorem readStatus_eq_ok_iff {element : Element} {status : CertStatus} :
    readStatus element = .ok status ↔ Tells element status := by
  constructor
  · intro given
    unfold readStatus at given
    split at given
    case h_1 number content =>
      split at given
      case h_1 =>
        cases given
        exact .good
      case h_2 =>
        obtain ⟨time, reason, rfl, revocation⟩ := readRevocation_eq_ok_iff.mp given
        exact .revoked revocation
      case h_3 =>
        cases given
        exact .unknown
      case h_4 => cases given
    case h_2 => cases given
  · intro tells
    cases tells with
    | good => rfl
    | revoked revocation => exact readRevocation_eq_ok_iff.mpr ⟨_, _, rfl, revocation⟩
    | unknown => rfl

theorem readStatus_of_cls {element : Element} (otherClass : element.cls ≠ .contextSpecific) :
    readStatus element = .error (.notContextTagged element.cls) := by
  unfold readStatus
  split
  case h_1 number content => exact absurd rfl otherClass
  case h_2 => rfl

end CertificateAudit.Ocsp
