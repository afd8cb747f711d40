import CertificateAudit.Proofs.Der.Delimited
import CertificateAudit.Proofs.Ocsp.RoundTrip

/-!
Answers that break off, and answers with something behind them. Only the outermost element of an
answer is looked at: what follows it does not matter, and where a part of it is missing nothing is
read from the rest (`certStatus_take`).
-/

namespace CertificateAudit.Ocsp

open CertificateAudit.Der

variable {response serial : List UInt8} {status : CertStatus}

/-- The status depends on the outermost element alone. -/
theorem certStatus_congr {other : List UInt8} (same : readElement response = readElement other) :
    certStatus response serial = certStatus other serial := by
  simp only [certStatus, responseBytes, same]

theorem certStatus_of_undecodable (undecodable : Element.read response = none) :
    certStatus response serial = .error .undecodable := by
  have failed : readElement response = .error .undecodable := by
    rw [readElement, undecodable]
  simp only [certStatus, responseBytes, failed]
  rfl

theorem exists_read_of_certStatus (given : certStatus response serial = .ok status) :
    ∃ element rest, Element.read response = some (element, rest) := by
  cases read : Element.read response with
  | some found => exact ⟨found.1, found.2, rfl⟩
  | none =>
      rw [certStatus_of_undecodable read] at given
      cases given

/-- A status that is given is given by the outermost element whatever follows it, and by no part
of that element. -/
theorem certStatus_take (given : certStatus response serial = .ok status) :
    ∃ size, elementSize? response = some size ∧ size ≤ response.length ∧
      (∀ behind, certStatus (response.take size ++ behind) serial = .ok status) ∧
      ∀ cut < size, certStatus (response.take cut) serial = .error .undecodable := by
  obtain ⟨element, rest, read⟩ := exists_read_of_certStatus given
  obtain ⟨front, rfl, leaves, needs⟩ := isDelimited_read _ _ _ read
  refine ⟨front.length, elementSize?_of_read read, ?_, ?_, ?_⟩
  · rw [List.length_append]
    exact Nat.le_add_right _ _
  · intro behind
    rw [List.take_left, ← given]
    apply certStatus_congr
    rw [readElement, readElement, leaves, leaves]
  · intro cut short
    rw [List.take_append_of_le_length (Nat.le_of_lt short)]
    exact certStatus_of_undecodable (needs cut short)

/-- An answer with two bytes behind it: they may be any others, but of the answer itself no byte
may be missing. -/
theorem certStatus_take_sample :
    certStatus (Answer.sample.encode ++ [0x30, 0x80]) [0x80] =
        .ok (.revoked Answer.sampleTime.moment (some "keyCompromise")) ∧
      certStatus (Answer.sample.encode ++ [0xff]) [0x80] =
        .ok (.revoked Answer.sampleTime.moment (some "keyCompromise")) ∧
      certStatus (Answer.sample.encode.take (Answer.sample.encode.length - 1)) [0x80] =
        .error .undecodable := by
  have given : certStatus (Answer.sample.encode ++ [0x30, 0x80]) [0x80] =
      .ok (.revoked Answer.sampleTime.moment (some "keyCompromise")) := by decide +kernel
  have length : elementSize? (Answer.sample.encode ++ [0x30, 0x80]) =
      some Answer.sample.encode.length := by decide +kernel
  obtain ⟨size, stated, _, leaves, needs⟩ := certStatus_take given
  cases stated.symm.trans length
  have positive : 0 < Answer.sample.encode.length := by decide +kernel
  have shorter := needs (Answer.sample.encode.length - 1) (Nat.sub_lt positive Nat.one_pos)
  have other := leaves [0xff]
  rw [List.take_left] at other
  rw [List.take_append_of_le_length (Nat.sub_le _ _)] at shorter
  exact ⟨given, other, shorter⟩

end CertificateAudit.Ocsp
