import CertificateAudit.Proofs.Calendar.Compact
import CertificateAudit.Proofs.Ocsp.Status
import CertificateAudit.Revocation.Check

/-!
The time of a revocation. A genuine time starts with the fourteen digits of its moment, and is read
as that moment. Times in which blanks stand for digits are read as well, and nothing else is
(`readTime_eq_ok_iff_genuine_or_loose`): from every other time an unknown verdict follows. So the
times are read as they should exactly if they are not loose (`readTime_iff_isGenuine_iff`).
-/

namespace CertificateAudit.Ocsp

open CertificateAudit.Calendar CertificateAudit.Http CertificateAudit.Revocation
open CertificateAudit.Text

/-- The bytes spell a text that starts with the fourteen digits of the moment. -/
def IsGenuine (bytes : List UInt8) (time : Moment) : Prop :=
  ∃ (stamp : Stamp) (rest : List Char),
    stamp.moment = time ∧ bytes = Utf8.encode (stamp.digits ++ rest)

/-- The bytes spell a text whose first fourteen bytes are the numbers of the moment with blanks
among them. -/
def IsLoose (bytes : List UInt8) (time : Moment) : Prop :=
  ∃ front rest parts, bytes = Utf8.encode (front ++ rest) ∧ (Utf8.encode front).length = 14 ∧
    ¬ IsVisible front ∧ SpellsFields momentFields {} front parts ∧ parts.moment = .ok time

theorem readTime_eq_ok_iff_front {bytes : List UInt8} {time : Moment} :
    readTime bytes = .ok time ↔
      ∃ front rest, bytes = Utf8.encode (front ++ rest) ∧ (Utf8.encode front).length = 14 ∧
        Pattern.compact.readMoment front = .ok time := by
  constructor
  · intro read
    unfold readTime at read
    split at read
    case h_1 => cases read
    case h_2 text decoded =>
      split at read
      case h_1 => cases read
      case h_2 front taken =>
        obtain ⟨rest, rfl, long⟩ := frontOfSize?_eq_some_iff.mp taken
        split at read <;> cases read
        exact ⟨front, rest, Utf8.decode?_eq_some_iff.mp decoded, long, ‹_›⟩
  · rintro ⟨front, rest, rfl, long, read⟩
    have decoded := Utf8.decode?_eq_some_iff.mpr (rfl : Utf8.encode (front ++ rest) = _)
    have taken := frontOfSize?_eq_some_iff.mpr ⟨rest, rfl, long⟩
    simp only [readTime, decoded, taken, read]

theorem front_unique {front other rest behind : List Char}
    (same : Utf8.encode (front ++ rest) = Utf8.encode (other ++ behind))
    (long : (Utf8.encode front).length = 14) (otherLong : (Utf8.encode other).length = 14) :
    front = other := by
  have texts : front ++ rest = other ++ behind :=
    Option.some.inj ((Utf8.decode?_eq_some_iff.mpr rfl).symm.trans
      (Utf8.decode?_eq_some_iff.mpr same))
  have taken := frontOfSize?_eq_some_iff.mpr ⟨rest, rfl, long⟩
  rw [texts, frontOfSize?_eq_some_iff.mpr ⟨behind, rfl, otherLong⟩] at taken
  exact (Option.some.inj taken).symm

theorem length_encode_digits (stamp : Stamp) : (Utf8.encode stamp.digits).length = 14 := by
  rw [length_encode_of_digits fun c => Stamp.isDigit_of_mem_digits, stamp.length_digits]

theorem readTime_eq_ok_iff_genuine_or_loose {bytes : List UInt8} {time : Moment} :
    readTime bytes = .ok time ↔ IsGenuine bytes time ∨ IsLoose bytes time := by
  rw [readTime_eq_ok_iff_front]
  constructor
  · rintro ⟨front, rest, spelled, long, read⟩
    obtain ⟨parts, spells, made⟩ := readMoment_compact_iff.mp read
    by_cases visible : IsVisible front
    · obtain ⟨stamp, isMoment, rfl⟩ := exists_stamp_of_spells spells made visible long
      exact .inl ⟨stamp, rest, isMoment, spelled⟩
    · exact .inr ⟨front, rest, parts, spelled, long, visible, spells, made⟩
  · rintro (⟨stamp, rest, rfl, spelled⟩ | ⟨front, rest, parts, spelled, long, _, spells, made⟩)
    · exact ⟨stamp.digits, rest, spelled, length_encode_digits stamp, stamp.readMoment_digits⟩
    · exact ⟨front, rest, spelled, long, readMoment_compact_iff.mpr ⟨parts, spells, made⟩⟩

theorem IsLoose.not_isGenuine {bytes : List UInt8} {time other : Moment}
    (loose : IsLoose bytes time) : ¬ IsGenuine bytes other := by
  obtain ⟨front, rest, parts, rfl, long, blank, _⟩ := loose
  rintro ⟨stamp, behind, _, same⟩
  obtain rfl := front_unique same long (length_encode_digits stamp)
  exact blank (IsVisible.of_digits fun c => Stamp.isDigit_of_mem_digits)

/-! From the time to the verdict. -/

def revocation? (response serial : List UInt8) : Option (List UInt8) := do
  let list ← (listOf response).toOption
  let single ← (selectSingle serial list).toOption
  match single.status with
  | .leaf ⟨.contextSpecific, 1⟩ (.raw content) => some content
  | _ => none

/-- The answer tells a revocation with this time, which has less than 128 bytes. -/
def TellsTime (response serial bytes : List UInt8) : Prop :=
  ∃ length rest, revocation? response serial = some (0x18 :: length :: (bytes ++ rest)) ∧
    length < 0x80 ∧ length.toNat = bytes.length

theorem certStatus_of_revocation? {response serial content : List UInt8}
    (told : revocation? response serial = some content) :
    certStatus response serial = readRevocation content := by
  rw [certStatus_eq_bind]
  unfold revocation? at told
  cases listed : listOf response with
  | error fault => simp [listed, Except.toOption] at told
  | ok list =>
      cases selected : selectSingle serial list with
      | error fault => simp [listed, selected, Except.toOption] at told
      | ok single =>
          simp only [listed, selected, Except.toOption, Option.bind_eq_bind,
            Option.bind_some] at told
          dsimp only [bind, Except.bind]
          rw [selected]
          split at told <;> cases told
          rename_i status
          dsimp only
          rw [status]
          rfl

theorem TellsTime.certStatus_eq {response serial bytes : List UInt8}
    (tells : TellsTime response serial bytes) :
    ∃ reason, certStatus response serial =
      (readTime bytes).map fun time => .revoked time reason := by
  obtain ⟨length, rest, told, short, filled⟩ := tells
  have fits : bytes.length ≤ (bytes ++ rest).length ∧ length < 0x80 :=
    ⟨by rw [List.length_append]; exact Nat.le_add_right _ _, short⟩
  refine ⟨readReason rest, ?_⟩
  rw [certStatus_of_revocation? told]
  simp only [readRevocation, filled, if_pos fits, List.take_left, List.drop_left]
  cases readTime bytes with
  | ok time => rfl
  | error fault => rfl

theorem verdict_of_fault {response serial : List UInt8} {fault : Fault} {reply : Reply}
    (failed : certStatus response serial = .error fault) (body : bodyOf reply = .ok response)
    (url : String) (date : Date) :
    verdictOf ((statusOf url serial reply).map (Verdict.ofStatus · date)) =
      .unknown (RevocationError.protocol fault).message := by
  simp only [statusOf, body, failed]
  rfl

/-- Times are read as the genuine times that they are exactly if they are not loose ones; a genuine
time becomes the time of the revocation, and a time that is neither genuine nor loose is a fault,
from which an unknown verdict follows. -/
theorem readTime_iff_isGenuine_iff (bytes : List UInt8) :
    ((∀ time, readTime bytes = .ok time ↔ IsGenuine bytes time) ↔ ∀ time, ¬ IsLoose bytes time) ∧
    (∀ time, readTime bytes = .ok time ↔ IsGenuine bytes time ∨ IsLoose bytes time) ∧
    (∀ time, IsGenuine bytes time → ∀ response serial, TellsTime response serial bytes →
      ∃ reason, certStatus response serial = .ok (.revoked time reason)) ∧
    ((∀ time, ¬ IsGenuine bytes time) → (∀ time, ¬ IsLoose bytes time) →
      ∃ fault, readTime bytes = .error fault ∧
        ∀ response serial, TellsTime response serial bytes →
          certStatus response serial = .error fault ∧
          ∀ url reply date, bodyOf reply = .ok response →
            verdictOf ((statusOf url serial reply).map (Verdict.ofStatus · date)) =
              .unknown (RevocationError.protocol fault).message) := by
  refine ⟨⟨?_, ?_⟩, fun time => readTime_eq_ok_iff_genuine_or_loose, ?_, ?_⟩
  · intro exact time loose
    have read := readTime_eq_ok_iff_genuine_or_loose.mpr (.inr loose)
    exact loose.not_isGenuine ((exact time).mp read)
  · intro strict time
    rw [readTime_eq_ok_iff_genuine_or_loose]
    exact or_iff_left (strict time)
  · intro time genuine response serial tells
    obtain ⟨reason, same⟩ := tells.certStatus_eq
    rw [readTime_eq_ok_iff_genuine_or_loose.mpr (.inl genuine)] at same
    exact ⟨reason, same⟩
  · intro notGenuine notLoose
    cases read : readTime bytes with
    | ok time =>
        rcases readTime_eq_ok_iff_genuine_or_loose.mp read with genuine | loose
        · exact absurd genuine (notGenuine time)
        · exact absurd loose (notLoose time)
    | error fault =>
        refine ⟨fault, rfl, fun response serial tells => ?_⟩
        obtain ⟨reason, same⟩ := tells.certStatus_eq
        rw [read] at same
        exact ⟨same, fun url reply date body => verdict_of_fault same body url date⟩

/-- An answer with one entry, a revocation at the time that the fifteen bytes spell. -/
def answerWith (time : List UInt8) : List UInt8 :=
  [0x30, 0x81, 0xc4, 0x0a, 0x01, 0x00, 0xa0, 0x81, 0xbe, 0x30, 0x81, 0xbb, 0x06, 0x09, 0x2b,
    0x06, 0x01, 0x05, 0x05, 0x07, 0x30, 0x01, 0x01, 0x04, 0x81, 0xad, 0x30, 0x81, 0xaa, 0x30,
    0x81, 0x94, 0xa2, 0x16, 0x04, 0x14, 0x33, 0x33, 0x33, 0x33, 0x33, 0x33, 0x33, 0x33, 0x33,
    0x33, 0x33, 0x33, 0x33, 0x33, 0x33, 0x33, 0x33, 0x33, 0x33, 0x33, 0x18, 0x0f, 0x32, 0x30,
    0x32, 0x34, 0x30, 0x36, 0x30, 0x31, 0x30, 0x30, 0x30, 0x30, 0x30, 0x30, 0x5a, 0x30, 0x69,
    0x30, 0x67, 0x30, 0x3c, 0x30, 0x09, 0x06, 0x05, 0x2b, 0x0e, 0x03, 0x02, 0x1a, 0x05, 0x00,
    0x04, 0x14, 0x11, 0x11, 0x11, 0x11, 0x11, 0x11, 0x11, 0x11, 0x11, 0x11, 0x11, 0x11, 0x11,
    0x11, 0x11, 0x11, 0x11, 0x11, 0x11, 0x11, 0x04, 0x14, 0x22, 0x22, 0x22, 0x22, 0x22, 0x22,
    0x22, 0x22, 0x22, 0x22, 0x22, 0x22, 0x22, 0x22, 0x22, 0x22, 0x22, 0x22, 0x22, 0x22, 0x02,
    0x03, 0x0a, 0x1b, 0x2c, 0xa1, 0x16, 0x18, 0x0f] ++ time ++
  [0xa0, 0x03, 0x0a, 0x01, 0x01, 0x18, 0x0f, 0x32, 0x30, 0x32, 0x34, 0x30, 0x36, 0x30, 0x31,
    0x30, 0x30, 0x30, 0x30, 0x30, 0x30, 0x5a, 0x30, 0x0d, 0x06, 0x09, 0x2a, 0x86, 0x48, 0x86,
    0xf7, 0x0d, 0x01, 0x01, 0x0b, 0x05, 0x00, 0x03, 0x02, 0x00, 0x00]

/-- The fifteen bytes of `20230517123000Z`. -/
def halfPastNoon : List UInt8 :=
  [0x32, 0x30, 0x32, 0x33, 0x30, 0x35, 0x31, 0x37, 0x31, 0x32, 0x33, 0x30, 0x30, 0x30, 0x5a]

/-- The fifteen bytes of `20230517240000Z`. -/
def hourTwentyFour : List UInt8 :=
  [0x32, 0x30, 0x32, 0x33, 0x30, 0x35, 0x31, 0x37, 0x32, 0x34, 0x30, 0x30, 0x30, 0x30, 0x5a]

/-- The fifteen bytes of `2024 1 1 1 1 1Z`. -/
def oneDigitEach : List UInt8 :=
  [0x32, 0x30, 0x32, 0x34, 0x20, 0x31, 0x20, 0x31, 0x20, 0x31, 0x20, 0x31, 0x20, 0x31, 0x5a]

def seventeenthOfMay : Date := ⟨2023, 5, 17, by decide, by decide⟩

theorem isGenuine_halfPastNoon :
    IsGenuine halfPastNoon ⟨seventeenthOfMay, 12, 30, 0, by decide⟩ :=
  ⟨⟨⟨seventeenthOfMay, 12, 30, 0, by decide⟩, by decide⟩, ['Z'], rfl, by decide +kernel⟩

/-- A revocation at half past noon, and an answer whose time has the hour 24. -/
theorem readTime_iff_isGenuine_iff_sample :
    (∃ reason, certStatus (answerWith halfPastNoon) [0x0a, 0x1b, 0x2c] =
      .ok (.revoked ⟨seventeenthOfMay, 12, 30, 0, by decide⟩ reason)) ∧
    ∃ fault, readTime hourTwentyFour = .error fault ∧
      verdictOf ((statusOf "http://o.example/" [0x0a, 0x1b, 0x2c]
          (.ok ⟨200, some (answerWith hourTwentyFour)⟩)).map
        (Verdict.ofStatus · seventeenthOfMay)) =
        .unknown (RevocationError.protocol fault).message := by
  have unread : readTime hourTwentyFour =
      .error (.invalidTime "20230517240000Z" .outOfRange) := by
    decide +kernel
  have notRead (time : Moment) :
      ¬ (IsGenuine hourTwentyFour time ∨ IsLoose hourTwentyFour time) := by
    rw [← readTime_eq_ok_iff_genuine_or_loose, unread]
    exact fun impossible => nomatch impossible
  obtain ⟨_, _, revoked, _⟩ := readTime_iff_isGenuine_iff halfPastNoon
  obtain ⟨_, _, _, unknown⟩ := readTime_iff_isGenuine_iff hourTwentyFour
  obtain ⟨fault, failed, follows⟩ := unknown (fun time => (not_or.mp (notRead time)).1)
    (fun time => (not_or.mp (notRead time)).2)
  obtain ⟨_, isUnknown⟩ := follows (answerWith hourTwentyFour) [0x0a, 0x1b, 0x2c]
    ⟨0x0f, [0xa0, 0x03, 0x0a, 0x01, 0x01], by decide +kernel, by decide, by decide⟩
  refine ⟨revoked _ isGenuine_halfPastNoon _ _
    ⟨0x0f, [0xa0, 0x03, 0x0a, 0x01, 0x01], by decide +kernel, by decide, by decide⟩,
    fault, failed, isUnknown _ _ _ rfl⟩

/-- A time in which blanks stand for digits is taken for one of the first of January. -/
theorem oneDigitEach_read :
    readTime oneDigitEach =
      .ok ⟨⟨2024, 1, 1, by decide, by decide⟩, 1, 1, 1, by decide⟩ ∧
    (∀ time, ¬ IsGenuine oneDigitEach time) ∧
    certStatus (answerWith oneDigitEach) [0x0a, 0x1b, 0x2c] =
      .ok (.revoked ⟨⟨2024, 1, 1, by decide, by decide⟩, 1, 1, 1, by decide⟩
        (some "keyCompromise")) := by
  refine ⟨by decide +kernel, ?_, by decide +kernel⟩
  rintro time ⟨stamp, rest, _, spelled⟩
  have text : oneDigitEach = Utf8.encode ("2024 1 1 1 1 1".toList ++ ['Z']) := by decide +kernel
  have front := front_unique (text.symm.trans spelled) (by decide +kernel)
    (length_encode_digits stamp)
  have blank : ' ' ∈ stamp.digits := by
    rw [← front]
    decide +kernel
  exact absurd (Stamp.isDigit_of_mem_digits blank) (by decide)

end CertificateAudit.Ocsp
