import CertificateAudit.Proofs.Audit.Backing

/-!
When a certificate is accepted. `Cleared` lists all that has to happen for a candidate, in terms
of the exchanges of its audit and of those before it. `outcomes_fail_closed` says that in every
report a candidate is accepted exactly if all of it happened, skipped exactly if its certificate
was not served, and rejected in every other case.
-/

namespace CertificateAudit

open CertificateAudit.Audit CertificateAudit.Calendar CertificateAudit.Http
open CertificateAudit.Revocation CertificateAudit.Text

variable {State : Type}

namespace Outcome

def IsAccepted (outcome : Outcome) : Prop :=
  ∃ record verdict, outcome = .accepted record verdict

def IsRejected (outcome : Outcome) : Prop :=
  ∃ record verdict, outcome = .rejected record verdict

def IsSkipped (outcome : Outcome) : Prop :=
  ∃ candidate reason, outcome = .skipped candidate reason

theorem isAccepted_ofVerdict (record : Record) (verdict : Verdict) :
    (ofVerdict record verdict).IsAccepted ↔ verdict.isValid = true := by
  by_cases valid : verdict.isValid = true
  · simp [ofVerdict, IsAccepted, valid]
  · simp [ofVerdict, IsAccepted, valid]

theorem isRejected_ofVerdict (record : Record) (verdict : Verdict) :
    (ofVerdict record verdict).IsRejected ↔ ¬ verdict.isValid = true := by
  by_cases valid : verdict.isValid = true
  · simp [ofVerdict, IsRejected, valid]
  · simp [ofVerdict, IsRejected, valid]

theorem not_isSkipped_ofVerdict (record : Record) (verdict : Verdict) :
    ¬ (ofVerdict record verdict).IsSkipped := by
  by_cases valid : verdict.isValid = true
  · simp [ofVerdict, IsSkipped, valid]
  · simp [ofVerdict, IsSkipped, valid]

end Outcome

namespace Audit

/-- The request for the certificate of a candidate was answered with success, and with a text
in which a certificate can be read. -/
def Served (settings : Settings) (made : List Exchange) (candidate : Candidate)
    (der : List UInt8) : Prop :=
  ∃ body subject, Brought made (Log.bodyRequest settings candidate.id) body ∧
    Pem.readCertificate (String.ofList (Utf8.decodeLossy body)) = .ok (der, subject)

/-- A status under which a certificate still counted on the date: it was not revoked, or only
on a later day. -/
def Clears (date : Date) (status : Except Ocsp.Fault Ocsp.CertStatus) : Prop :=
  status = .ok .good ∨ ∃ time reason, status = .ok (.revoked time reason) ∧ date < time.date

/-- All that has to happen for a candidate to be accepted: its certificate was served and names
a responder and a source of its issuer, the issuer was brought from that source just now or, if
issuers are kept, earlier, and the responder answered the question about the two certificates
with a status that clears the certificate for the date. -/
def Cleared (settings : Settings) (date : Date) (past made : List Exchange)
    (candidate : Candidate) : Prop :=
  ∃ der certificate responder source issuer issuerCertificate answer,
    Served settings made candidate der ∧
    Certificate.ofDer? der = some certificate ∧
    certificate.accessUrl .ocsp = .ok responder ∧
    certificate.accessUrl .caIssuers = .ok source ∧
    (IssuerBrought made source issuer ∨
      settings.cacheIssuers = true ∧ IssuerBrought past source issuer) ∧
    Certificate.ofDer? issuer.der = some issuerCertificate ∧
    Brought made (responderRequest responder (Ocsp.request certificate issuerCertificate))
      answer ∧
    Clears date (Ocsp.certStatus answer certificate.serial)

end Audit

theorem Certificate.location_eq_ok_iff {certificate : Certificate} {method : AccessMethod}
    {url : String} :
    certificate.location method = .ok url ↔ certificate.accessUrl method = .ok url := by
  unfold Certificate.location
  cases certificate.accessUrl method with
  | ok other => simp
  | error error => simp

namespace Revocation

theorem statusOf_eq_ok_iff {url : String} {serial : List UInt8} {reply : Reply}
    {status : Ocsp.CertStatus} :
    statusOf url serial reply = .ok status ↔
      ∃ answer, bodyOf reply = .ok answer ∧ Ocsp.certStatus answer serial = .ok status := by
  unfold statusOf
  cases bodyOf reply with
  | error failure => simp
  | ok answer =>
      cases read : Ocsp.certStatus answer serial with
      | error fault => simp [read]
      | ok other => simp [read]

/-- A verdict lets a certificate count exactly if there is a status that clears it. -/
theorem verdictFor_isValid_iff {date : Date} {status : Except RevocationError Ocsp.CertStatus} :
    (verdictFor date status).isValid = true ↔
      ∃ known, status = .ok known ∧ Clears date (.ok known) := by
  cases status with
  | error error => simp [verdictFor, verdictOf, Verdict.isValid, Except.map]
  | ok known =>
      cases known with
      | good => simp [verdictFor, verdictOf, Verdict.ofStatus, Verdict.isValid, Except.map, Clears]
      | unknown =>
          simp [verdictFor, verdictOf, Verdict.ofStatus, Verdict.isValid, Except.map, Clears]
      | revoked time reason =>
          by_cases later : date < time.date
          · simp [verdictFor, verdictOf, Verdict.ofStatus, Verdict.isValid, Except.map, Clears,
              later]
          · simp [verdictFor, verdictOf, Verdict.ofStatus, Verdict.isValid, Except.map, Clears,
              later]

namespace StatusCourse

variable {der : List UInt8} {cache cache' : IssuerCache} {made : List Exchange}

theorem userAgent_eq_none {status : Except RevocationError Ocsp.CertStatus}
    (course : StatusCourse der cache made status cache') :
    ∀ exchange ∈ made, exchange.request.userAgent = none := by
  intro exchange membership
  cases course with
  | unreadable => cases membership
  | noResponder => cases membership
  | noIssuer _ _ resolved => exact (resolved.userAgent_eq_none exchange membership).1
  | badIssuer _ _ resolved => exact (resolved.userAgent_eq_none exchange membership).1
  | asked _ _ resolved =>
      rcases List.mem_append.mp membership with before | last
      · exact (resolved.userAgent_eq_none exchange before).1
      · cases List.mem_singleton.mp last
        rfl

theorem status_eq_of_brought {status : Except RevocationError Ocsp.CertStatus}
    {responder : String} {question answer : List UInt8} {certificate : Certificate}
    (course : StatusCourse der cache made status cache')
    (read : Certificate.ofDer? der = some certificate)
    (brought : Brought made (responderRequest responder question) answer)
    {known : Ocsp.CertStatus} (given : Ocsp.certStatus answer certificate.serial = .ok known) :
    status = .ok known := by
  obtain ⟨exchange, membership, isQuestion, answered⟩ := brought
  -- Only the last exchange of a course that got to the responder is a question.
  have notGet : exchange.request.method ≠ .get := by
    rw [isQuestion]
    simp [responderRequest]
  cases course with
  | unreadable => cases membership
  | noResponder => cases membership
  | noIssuer _ _ resolved =>
      exact absurd (resolved.userAgent_eq_none exchange membership).2 notGet
  | badIssuer _ _ resolved =>
      exact absurd (resolved.userAgent_eq_none exchange membership).2 notGet
  | @asked other url _ _ _ reply _ readOther _ resolved _ =>
      rcases List.mem_append.mp membership with before | last
      · exact absurd (resolved.userAgent_eq_none exchange before).2 notGet
      · cases List.mem_singleton.mp last
        cases Option.some.inj (read.symm.trans readOther)
        exact statusOf_eq_ok_iff.mpr ⟨answer, bodyOf_eq_ok_iff.mpr answered, given⟩

/-- A status that is known was given by the responder that the certificate names, in answer to
the question about it and its issuer. -/
theorem brought_of_ok {known : Ocsp.CertStatus} {caching : Bool} {past : List Exchange}
    (course : StatusCourse der cache made (.ok known) cache')
    (before : cache.IsBacked caching past) :
    ∃ certificate responder source issuer issuerCertificate answer,
      Certificate.ofDer? der = some certificate ∧
      certificate.location .ocsp = .ok responder ∧
      certificate.location .caIssuers = .ok source ∧
      (IssuerBrought made source issuer ∨ caching = true ∧ IssuerBrought past source issuer) ∧
      Certificate.ofDer? issuer.der = some issuerCertificate ∧
      Brought made (responderRequest responder (Ocsp.request certificate issuerCertificate))
        answer ∧
      Ocsp.certStatus answer certificate.serial = .ok known := by
  generalize result : Except.ok known = status at course
  cases course with
  | unreadable => cases result
  | noResponder => cases result
  | noIssuer => cases result
  | badIssuer => cases result
  | @asked certificate responder early issuer issuerCertificate reply _ read located resolved
      decoded =>
      obtain ⟨answer, usable, given⟩ := statusOf_eq_ok_iff.mp result.symm
      obtain ⟨source, sourceLocated, origin⟩ := resolved.issuerBrought before
      refine ⟨certificate, responder, source, issuer, issuerCertificate, answer, read, located,
        sourceLocated, ?_, decoded, ?_, given⟩
      · rcases origin with ⟨body, brought, read⟩ | kept
        · exact .inl ⟨body, brought.append_left _, read⟩
        · exact .inr kept
      · exact ⟨_, List.mem_append_right _ (List.mem_singleton_self _), rfl,
          bodyOf_eq_ok_iff.mp usable⟩

end StatusCourse

end Revocation

namespace Log

theorem recordOf_eq_ok_iff {url : String} {candidate : Candidate} {reply : Reply}
    {record : Record} :
    recordOf url candidate reply = .ok record ↔
      ∃ body subject, bodyOf reply = .ok body ∧
        Pem.readCertificate (String.ofList (Utf8.decodeLossy body)) =
          .ok (record.der, subject) ∧
        record = {
          id := candidate.id
          notBefore := candidate.notBefore
          notAfter := candidate.notAfter
          subject
          pem := String.ofList (Utf8.decodeLossy body)
          der := record.der } := by
  constructor
  · intro given
    unfold recordOf at given
    cases usable : bodyOf reply with
    | error failure => simp [usable] at given
    | ok body =>
        cases read : Pem.readCertificate (String.ofList (Utf8.decodeLossy body)) with
        | error error => simp [usable, read] at given
        | ok pair =>
            obtain ⟨der, subject⟩ := pair
            simp only [usable, read, Except.ok.injEq] at given
            subst given
            exact ⟨body, subject, rfl, read, rfl⟩
  · rintro ⟨body, subject, usable, read, same⟩
    simp only [recordOf, usable, read]
    rw [← same]

end Log

namespace Audit

variable {settings : Settings} {date : Date} {candidate : Candidate} {reply : Reply}
  {made past : List Exchange}

/-- Behind the first exchange of a candidate nothing else is asked of the log. -/
theorem served_cons_iff
    (others : ∀ exchange ∈ made, exchange.request.userAgent = none) {der : List UInt8} :
    Served settings (⟨Log.bodyRequest settings candidate.id, reply⟩ :: made) candidate der ↔
      ∃ body subject, bodyOf reply = .ok body ∧
        Pem.readCertificate (String.ofList (Utf8.decodeLossy body)) = .ok (der, subject) := by
  constructor
  · rintro ⟨body, subject, ⟨exchange, membership, isRequest, answered⟩, read⟩
    rcases List.mem_cons.mp membership with rfl | later
    · exact ⟨body, subject, bodyOf_eq_ok_iff.mpr answered, read⟩
    · have unnamed := others exchange later
      rw [isRequest] at unnamed
      cases unnamed
  · rintro ⟨body, subject, usable, read⟩
    exact ⟨body, subject,
      ⟨_, List.mem_cons_self, rfl, bodyOf_eq_ok_iff.mp usable⟩, read⟩

namespace CandidateCourse

variable {told : List Event} {outcome : Outcome} {cache cache' : IssuerCache}

theorem isSkipped_iff
    (course : CandidateCourse settings date candidate cache made told outcome cache') :
    outcome.IsSkipped ↔ ¬ ∃ der, Served settings made candidate der := by
  cases course with
  | @skipped reply error failed =>
      refine iff_of_true ⟨_, _, rfl⟩ ?_
      rintro ⟨der, served⟩
      obtain ⟨body, subject, usable, read⟩ := (served_cons_iff (by simp)).mp served
      simp [Log.recordOf, usable, read] at failed
  | @judged reply record _ _ _ given found =>
      obtain ⟨body, subject, usable, read, _⟩ := Log.recordOf_eq_ok_iff.mp given
      refine iff_of_false (Outcome.not_isSkipped_ofVerdict _ _) ?_
      intro unserved
      exact unserved ⟨record.der,
        (served_cons_iff found.userAgent_eq_none).mpr ⟨body, subject, usable, read⟩⟩

theorem isAccepted_iff
    (course : CandidateCourse settings date candidate cache made told outcome cache')
    (before : cache.IsBacked settings.cacheIssuers past) :
    outcome.IsAccepted ↔ Cleared settings date past made candidate := by
  cases course with
  | @skipped reply error failed =>
      refine iff_of_false (by simp [Outcome.IsAccepted]) ?_
      rintro ⟨der, _, _, _, _, _, _, served, _⟩
      obtain ⟨body, subject, usable, read⟩ := (served_cons_iff (by simp)).mp served
      simp [Log.recordOf, usable, read] at failed
  | @judged reply record made status _ given found =>
      obtain ⟨body, subject, usable, read, _⟩ := Log.recordOf_eq_ok_iff.mp given
      rw [Outcome.isAccepted_ofVerdict, Revocation.verdictFor_isValid_iff]
      constructor
      · rintro ⟨known, rfl, clears⟩
        obtain ⟨certificate, responder, source, issuer, issuerCertificate, answer, readLeaf,
          located, sourceLocated, origin, decoded, brought, status⟩ :=
            found.brought_of_ok before
        refine ⟨record.der, certificate, responder, source, issuer, issuerCertificate, answer,
          (served_cons_iff found.userAgent_eq_none).mpr ⟨body, subject, usable, read⟩, readLeaf,
          Certificate.location_eq_ok_iff.mp located,
          Certificate.location_eq_ok_iff.mp sourceLocated, ?_, decoded,
          brought.append_right [_], ?_⟩
        · rcases origin with ⟨content, brought, read⟩ | kept
          · exact .inl ⟨content, brought.append_right [_], read⟩
          · exact .inr kept
        · rw [status]
          exact clears
      · rintro ⟨der, certificate, responder, _, _, issuerCertificate, answer, served, readLeaf,
          _, _, _, _, ⟨exchange, membership, isQuestion, answered⟩, clears⟩
        obtain ⟨_, _, usable', read'⟩ := (served_cons_iff found.userAgent_eq_none).mp served
        cases Except.ok.inj (usable.symm.trans usable')
        cases Except.ok.inj (read.symm.trans read')
        have brought : Brought made
            (responderRequest responder (Ocsp.request certificate issuerCertificate)) answer := by
          rcases List.mem_cons.mp membership with rfl | later
          · cases isQuestion
          · exact ⟨exchange, later, isQuestion, answered⟩
        rcases clears with good | ⟨time, reason, revoked, later⟩
        · exact ⟨.good, found.status_eq_of_brought readLeaf brought good, .inl rfl⟩
        · exact ⟨.revoked time reason, found.status_eq_of_brought readLeaf brought revoked,
            .inr ⟨time, reason, rfl, later⟩⟩

theorem isRejected_iff
    (course : CandidateCourse settings date candidate cache made told outcome cache') :
    outcome.IsRejected ↔ ¬ outcome.IsSkipped ∧ ¬ outcome.IsAccepted := by
  cases course with
  | skipped => simp [Outcome.IsRejected, Outcome.IsSkipped]
  | judged =>
      rw [Outcome.isRejected_ofVerdict, Outcome.isAccepted_ofVerdict]
      simp [Outcome.not_isSkipped_ofVerdict]

theorem head?_request
    (course : CandidateCourse settings date candidate cache made told outcome cache') :
    made.head?.map Exchange.request = some (Log.bodyRequest settings candidate.id) := by
  cases course <;> rfl

end CandidateCourse

/-- A certificate that is its own issuer. Its serial number is 7, it names the responder
`o`, and `i` as the source of its issuer. -/
def sampleCertificate : List UInt8 :=
  [0x30, 0x6b, 0x30, 0x62, 0x02, 0x01, 0x07, 0x30, 0x02, 0x06, 0x00, 0x30, 0x00, 0x30, 0x1a, 0x17,
    0x0b, 0x32, 0x34, 0x30, 0x31, 0x30, 0x31, 0x30, 0x30, 0x30, 0x30, 0x5a, 0x17, 0x0b, 0x32,
    0x34, 0x30, 0x31, 0x30, 0x31, 0x30, 0x30, 0x30, 0x30, 0x5a, 0x30, 0x00, 0x30, 0x07, 0x30,
    0x02, 0x06, 0x00, 0x03, 0x01, 0x00, 0xa3, 0x30, 0x30, 0x2e, 0x30, 0x2c, 0x06, 0x08, 0x2b,
    0x06, 0x01, 0x05, 0x05, 0x07, 0x01, 0x01, 0x04, 0x20, 0x30, 0x1e, 0x30, 0x0d, 0x06, 0x08,
    0x2b, 0x06, 0x01, 0x05, 0x05, 0x07, 0x30, 0x01, 0x86, 0x01, 0x6f, 0x30, 0x0d, 0x06, 0x08,
    0x2b, 0x06, 0x01, 0x05, 0x05, 0x07, 0x30, 0x02, 0x86, 0x01, 0x69, 0x30, 0x02, 0x06, 0x00,
    0x03, 0x01, 0x00]

/-- A responder's answer: the certificate with the serial number 7 is good. -/
def sampleAnswer : List UInt8 :=
  [0x30, 0x23, 0x0a, 0x01, 0x00, 0xa0, 0x1e, 0x30, 0x1c, 0x06, 0x09, 0x2b, 0x06, 0x01, 0x05, 0x05,
    0x07, 0x30, 0x01, 0x01, 0x04, 0x0f, 0x30, 0x0d, 0x30, 0x0b, 0x30, 0x09, 0x30, 0x07, 0x30,
    0x03, 0x02, 0x01, 0x07, 0x80, 0x00]

def sampleListing : String :=
  "[[7,null,null,\"2024-01-01T00:00:00\",\"2024-12-31T00:00:00\",null]]"

def sampleText : String :=
  "-----BEGIN CERTIFICATE-----" ++
    "MGswYgIBBzACBgAwADAaFwsyNDAxMDEwMDAwWhcLMjQwMTAxMDAwMFowADAHMAIGAAMBAKMwMC4w" ++
    "LAYIKwYBBQUHAQEEIDAeMA0GCCsGAQUFBzABhgFvMA0GCCsGAQUFBzAChgFpMAIGAAMBAA==" ++
  "-----END CERTIFICATE-----"

def sampleNetwork : Network Unit where
  answer request state :=
    let body :=
      if request.method = .post then sampleAnswer
      else if request.userAgent = none then sampleCertificate
      else if request.url = "https://crt.sh/?d=7" then Utf8.encode sampleText.toList
      else Utf8.encode sampleListing.toList
    (.ok ⟨200, some body⟩, state)

def sampleDate : Date :=
  (Date.ofParts? 2024 6 1).get rfl

theorem sampleNetwork_accepts :
    ((run (World.environment sampleNetwork) {} "example.com" sampleDate { enabled := true }
      { network := (), files := {} }).1.1.toOption.map fun report =>
        report.outcomes.map fun outcome => outcome.accepted?.isSome) = some [true] := by
  decide +kernel

end Audit

end CertificateAudit
