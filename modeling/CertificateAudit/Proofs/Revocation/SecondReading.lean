import CertificateAudit.Proofs.Audit.Requests

/-!
Certificates that are read a second time. A check reads the bytes of a record and of an issuer
that were read before the record or the issuer was made. `IsStable` says of each that reading it
again gives the same; a cache holds stable issuers only, whatever the network does, so the two
errors about a second reading that fails never arise (`second_reading_succeeds`).
-/

namespace CertificateAudit

open CertificateAudit.Audit CertificateAudit.Calendar CertificateAudit.Http CertificateAudit.Text

variable {State : Type}

/-- The text of the record is read as the bytes and the subject of the record. -/
def Record.IsStable (record : Record) : Prop :=
  Pem.readCertificate record.pem = .ok (record.der, record.subject)

theorem Record.isStable_of_recordOf {url : String} {candidate : Candidate} {reply : Reply}
    {record : Record} (given : Log.recordOf url candidate reply = .ok record) :
    record.IsStable := by
  obtain ⟨body, subject, _, read, same⟩ := Log.recordOf_eq_ok_iff.mp given
  rw [same]
  exact read

theorem Record.IsStable.exists_certificate {record : Record} (stable : record.IsStable) :
    ∃ certificate, Certificate.ofDer? record.der = some certificate := by
  obtain ⟨certificate, read, _⟩ := Pem.readCertificate_eq_ok stable
  exact ⟨certificate, read⟩

namespace Issuer

/-- The bytes of the issuer are read as the issuer. -/
def IsStable (issuer : Issuer) : Prop :=
  decode issuer.url issuer.der = .ok issuer

variable {url : String} {body : List UInt8} {issuer : Issuer}

theorem decode_eq_ok_iff :
    decode url body = .ok issuer ↔ ∃ certificate,
      Certificate.ofDer? body = some certificate ∧
        issuer = ⟨url, certificate.subject.text, body⟩ := by
  unfold decode
  cases Certificate.ofDer? body with
  | none => simp
  | some certificate => simp [eq_comm]

theorem isStable_of_decode (decoded : decode url body = .ok issuer) : issuer.IsStable := by
  obtain ⟨certificate, read, rfl⟩ := decode_eq_ok_iff.mp decoded
  exact decode_eq_ok_iff.mpr ⟨certificate, read, rfl⟩

theorem IsStable.exists_certificate (stable : issuer.IsStable) :
    ∃ certificate, Certificate.ofDer? issuer.der = some certificate := by
  obtain ⟨certificate, read, _⟩ := decode_eq_ok_iff.mp stable
  exact ⟨certificate, read⟩

end Issuer

/-- A text that starts otherwise is another text. -/
theorem ne_append {text front : String} (rest : String) (index : Nat)
    (inside : index < front.toList.length)
    (differs : front.toList[index]? ≠ text.toList[index]?) : text ≠ front ++ rest := by
  rintro rfl
  rw [String.toList_append, List.getElem?_append_left inside] at differs
  exact differs rfl

-- The literals of a message are kept out of the rewriting, which would unfold them.
theorem append_regroup (front second third back : String) :
    front ++ (second ++ third ++ back) = front ++ second ++ (third ++ back) := by
  simp only [String.append_assoc]

namespace RevocationError

/-- The error is that a certificate which had been read could not be read again. -/
inductive IsRelapse : RevocationError → Prop where
  | certificate : IsRelapse .badCertificate
  | issuer : IsRelapse .badIssuer

/-- No other error is told in the same words. -/
theorem IsRelapse.message_ne {error other : RevocationError} (relapse : error.IsRelapse)
    (differs : ¬ other.IsRelapse) : error.message ≠ other.message := by
  cases other with
  | badCertificate => exact absurd .certificate differs
  | badIssuer => exact absurd .issuer differs
  | request url failure =>
      have starts : message (.request url failure) =
          "Request to " ++ url ++ (" failed: " ++ failure.message) := String.append_assoc
      rw [starts, String.append_assoc]
      exact ne_append _ 0 (by decide) (by cases relapse <;> decide)
  | badIssuerFrom url =>
      have starts : message (.badIssuerFrom url) =
          "Failed to parse certificate data: " ++ "Failed to parse issuer certificate from " ++
            (url ++ ": Error(malformed certificate)") := append_regroup ..
      rw [starts]
      exact ne_append _ 68 (by decide) (by cases relapse <;> decide)
  | access error =>
      cases error with
      | noExtension => cases relapse <;> decide
      | malformed => cases relapse <;> decide
      | noDescriptor method => cases relapse <;> cases method <;> decide
  | protocol fault =>
      exact ne_append fault.message 0 (by decide) (by cases relapse <;> decide)

end RevocationError

/-- Every issuer that is found can be read again. -/
def IssuerCache.IsStable (cache : IssuerCache) : Prop :=
  ∀ url issuer, cache.find? url = some issuer → issuer.IsStable

theorem IssuerCache.isStable_empty (caching : Bool) :
    IsStable { enabled := caching } := by
  intro url issuer found
  cases caching <;> simp [find?] at found

theorem IssuerCache.IsBacked.isStable {caching : Bool} {history : List Exchange}
    {cache : IssuerCache} (backed : cache.IsBacked caching history) : cache.IsStable := by
  intro url issuer found
  obtain ⟨body, _, decoded⟩ := backed.brought found
  exact Issuer.isStable_of_decode decoded

theorem Certificate.exists_access_of_location {certificate : Certificate} {method : AccessMethod}
    {error : RevocationError} (failed : certificate.location method = .error error) :
    ∃ access, error = .access access := by
  unfold Certificate.location at failed
  split at failed
  case h_1 => cases failed
  case h_2 access _ =>
    cases failed
    exact ⟨access, rfl⟩

/-! What one call keeps, and which errors it gives. -/

namespace IssuerCourse

variable {certificate : Certificate} {cache cache' : IssuerCache} {made : List Exchange}
  {result : Except RevocationError Issuer}

theorem isStable_of_ok {issuer : Issuer}
    (course : IssuerCourse certificate cache made (.ok issuer) cache')
    (before : cache.IsStable) : issuer.IsStable := by
  cases course with
  | known _ found => exact before _ _ found
  | fetched _ _ served =>
      obtain ⟨body, _, decoded⟩ := Issuer.ofReply_eq_ok_iff.mp served
      exact Issuer.isStable_of_decode decoded

theorem isStable (course : IssuerCourse certificate cache made result cache')
    (before : cache.IsStable) : cache'.IsStable := by
  cases course with
  | unlocated => exact before
  | known => exact before
  | failed => exact before
  | fetched located absent served =>
      intro other kept found
      rcases IssuerCache.find?_keep found with present | ⟨rfl, rfl⟩
      · exact before other kept present
      · exact (IssuerCourse.fetched located absent served).isStable_of_ok before

theorem not_isRelapse {error : RevocationError}
    (course : IssuerCourse certificate cache made (.error error) cache') :
    ¬ error.IsRelapse := by
  cases course with
  | unlocated located =>
      obtain ⟨access, rfl⟩ := Certificate.exists_access_of_location located
      rintro ⟨⟩
  | @failed url reply _ _ _ served =>
      unfold Issuer.ofReply at served
      split at served
      case h_1 failure _ =>
        cases served
        rintro ⟨⟩
      case h_2 body _ =>
        unfold Issuer.decode at served
        split at served
        case h_1 => cases served
        case h_2 =>
          cases served
          rintro ⟨⟩

end IssuerCourse

namespace Revocation

theorem not_isRelapse_of_statusOf {url : String} {serial : List UInt8} {reply : Reply}
    {error : RevocationError} (failed : statusOf url serial reply = .error error) :
    ¬ error.IsRelapse := by
  unfold statusOf at failed
  split at failed
  case h_1 =>
    cases failed
    rintro ⟨⟩
  case h_2 =>
    split at failed
    case h_1 => cases failed
    case h_2 =>
      cases failed
      rintro ⟨⟩

namespace StatusCourse

variable {der : List UInt8} {cache cache' : IssuerCache} {made : List Exchange}
  {status : Except RevocationError Ocsp.CertStatus}

theorem isStable (course : StatusCourse der cache made status cache')
    (before : cache.IsStable) : cache'.IsStable := by
  cases course with
  | unreadable => exact before
  | noResponder => exact before
  | noIssuer _ _ resolved => exact resolved.isStable before
  | badIssuer _ _ resolved => exact resolved.isStable before
  | asked _ _ resolved => exact resolved.isStable before

theorem not_isRelapse {certificate : Certificate} {error : RevocationError}
    (course : StatusCourse der cache made (.error error) cache')
    (read : Certificate.ofDer? der = some certificate) (before : cache.IsStable) :
    ¬ error.IsRelapse := by
  generalize result : Except.error error = status at course
  cases course with
  | unreadable unread => cases unread.symm.trans read
  | noResponder _ located =>
      cases result
      obtain ⟨access, rfl⟩ := Certificate.exists_access_of_location located
      rintro ⟨⟩
  | noIssuer _ _ resolved =>
      cases result
      exact resolved.not_isRelapse
  | badIssuer _ _ resolved unread =>
      obtain ⟨issuerCertificate, readIssuer⟩ := (resolved.isStable_of_ok before).exists_certificate
      cases unread.symm.trans readIssuer
  | asked => exact not_isRelapse_of_statusOf result.symm

end StatusCourse

/-- The check of a record in detail: an error is one of finding out the status. -/
theorem tryCheck_status (network : Network State) (der : List UInt8) (date : Date)
    (cache : IssuerCache) :
    Proceeds network (tryCheck (World.send network) der date cache) fun made _ result =>
      ∃ status, StatusCourse der cache made status result.2 ∧
        result.1 = status.map fun status => Verdict.ofStatus status date := by
  unfold tryCheck
  refine .bind (certificateStatus_proceeds network der cache) ?_
  rintro made _ ⟨status, cache'⟩ ⟨rfl, course⟩
  refine .pure ⟨status, ?_, rfl⟩
  rw [List.append_nil]
  exact course

/-- A verdict tells an error only where the status could not be found out. -/
theorem unknown_message_ne {date : Date} {status : Except RevocationError Ocsp.CertStatus}
    (noRelapse : ∀ error, status = .error error → ¬ error.IsRelapse) {error : RevocationError}
    (relapse : error.IsRelapse) : verdictFor date status ≠ .unknown error.message := by
  cases status with
  | error other =>
      intro same
      exact relapse.message_ne (noRelapse other rfl) (Verdict.unknown.inj same).symm
  | ok known =>
      cases known with
      | good => exact fun impossible => nomatch impossible
      | revoked time reason =>
          intro same
          simp only [verdictFor, verdictOf, Except.map, Verdict.ofStatus] at same
          split at same <;> cases same
      | unknown =>
          intro same
          have told := Verdict.unknown.inj same
          revert told
          cases relapse <;> decide

end Revocation

/-- The record was judged with this verdict. -/
def Outcome.Judges (outcome : Outcome) (record : Record) (verdict : Verdict) : Prop :=
  outcome = .accepted record verdict ∨ outcome = .rejected record verdict

theorem Outcome.judges_ofVerdict {record own : Record} {verdict given : Verdict}
    (judges : (ofVerdict own given).Judges record verdict) : record = own ∧ verdict = given := by
  unfold ofVerdict at judges
  split at judges
  case isTrue =>
    rcases judges with same | same
    · cases same
      exact ⟨rfl, rfl⟩
    · cases same
  case isFalse =>
    rcases judges with same | same
    · cases same
    · cases same
      exact ⟨rfl, rfl⟩

/-- The caches that can come about: one starts without issuers, and single issuers are resolved,
certificates checked and candidates audited with it, in any world each time. -/
inductive IssuerCache.IsReachable (network : Network State) : IssuerCache → Prop where
  | start {caching} : IsReachable network { enabled := caching }
  | resolve {cache result cache'} {certificate : Certificate} {world world' : World State} :
      IsReachable network cache →
      certificate.resolveIssuer (World.send network) cache world = ((result, cache'), world') →
      IsReachable network cache'
  | check {cache der date result cache'} {world world' : World State} :
      IsReachable network cache →
      Revocation.tryCheck (World.send network) der date cache world = ((result, cache'), world') →
      IsReachable network cache'
  | audit {cache settings date candidate outcome cache'} {world world' : World State} :
      IsReachable network cache →
      auditCandidate (World.environment network) settings date candidate cache world =
        ((outcome, cache'), world') →
      IsReachable network cache'

namespace Audit

variable {settings : Settings} {date : Date} {candidate : Candidate} {cache cache' : IssuerCache}
  {made : List Exchange} {told : List Event} {outcome : Outcome} {network : Network State}

theorem CandidateCourse.isStable
    (course : CandidateCourse settings date candidate cache made told outcome cache')
    (before : cache.IsStable) : cache'.IsStable := by
  cases course with
  | skipped => exact before
  | judged _ found => exact found.isStable before

theorem CandidateCourse.of_judges {record : Record} {verdict : Verdict}
    (course : CandidateCourse settings date candidate cache made told outcome cache')
    (before : cache.IsStable) (judges : outcome.Judges record verdict) :
    record.IsStable ∧ ∀ error : RevocationError, error.IsRelapse →
      verdict ≠ .unknown error.message := by
  cases course with
  | skipped => rcases judges with same | same <;> cases same
  | judged given found =>
      obtain ⟨rfl, rfl⟩ := Outcome.judges_ofVerdict judges
      have stable := Record.isStable_of_recordOf given
      obtain ⟨certificate, read⟩ := stable.exists_certificate
      refine ⟨stable, fun error relapse => Revocation.unknown_message_ne ?_ relapse⟩
      rintro other rfl
      exact found.not_isRelapse read before

theorem AuditCourse.of_judges {candidates : List Candidate} {segments : List (List Exchange)}
    {tellings : List (List Event)} {outcomes : List Outcome} {record : Record} {verdict : Verdict}
    (course : AuditCourse settings date candidates cache segments tellings outcomes cache')
    (before : cache.IsStable) (membership : outcome ∈ outcomes)
    (judges : outcome.Judges record verdict) :
    record.IsStable ∧ ∀ error : RevocationError, error.IsRelapse →
      verdict ≠ .unknown error.message := by
  induction course with
  | done => cases membership
  | next single _ inductionHypothesis =>
      rcases List.mem_cons.mp membership with rfl | later
      · exact single.of_judges before judges
      · exact inductionHypothesis (single.isStable before) later

end Audit

variable {network : Network State}

/-- What a program gives in a world is given by one of its courses. -/
theorem Audit.Proceeds.course_of_eq {α : Type} {program : StateM (World State) α}
    {course : List Exchange → List Event → α → Prop} (proceeds : Proceeds network program course)
    {world world' : World State} {value : α} (ran : program world = (value, world')) :
    ∃ made told, course made told value := by
  obtain ⟨state, made, told, given, _, fits, same⟩ := proceeds world
  cases ran.symm.trans same
  exact ⟨made, told, fits⟩

theorem IssuerCache.IsReachable.isStable {cache : IssuerCache}
    (reached : cache.IsReachable network) : cache.IsStable := by
  induction reached with
  | start => exact isStable_empty _
  | resolve _ ran inductionHypothesis =>
      obtain ⟨made, told, _, course⟩ :=
        (Certificate.resolveIssuer_proceeds network _ _).course_of_eq ran
      exact course.isStable inductionHypothesis
  | check _ ran inductionHypothesis =>
      obtain ⟨made, told, status, course, _⟩ :=
        (Revocation.tryCheck_status network _ _ _).course_of_eq ran
      exact course.isStable inductionHypothesis
  | audit _ ran inductionHypothesis =>
      obtain ⟨made, told, course⟩ := (auditCandidate_proceeds network _ _ _ _).course_of_eq ran
      exact course.isStable inductionHypothesis

theorem Revocation.not_isRelapse_of_tryCheck {cache cache' : IssuerCache} {der : List UInt8}
    {date : Date} {certificate : Certificate} {error : RevocationError} {world world' : World State}
    (stable : cache.IsStable) (read : Certificate.ofDer? der = some certificate)
    (failed : tryCheck (World.send network) der date cache world =
      ((.error error, cache'), world')) : ¬ error.IsRelapse := by
  obtain ⟨made, told, status, course, same⟩ :=
    (tryCheck_status network der date cache).course_of_eq failed
  cases status with
  | error other =>
      cases same
      exact course.not_isRelapse read stable
  | ok known => cases same

/-- The second reading never fails. With every cache that can come about, the check of a record
that was fetched gives neither of its errors: the text of the record is still read as its bytes
and subject, and every issuer that is resolved, fetched or kept, is read from its own bytes as
itself. So no verdict in any report tells of such an error. -/
theorem Revocation.second_reading_succeeds (network : Network State) (settings : Settings) :
    (∀ cache : IssuerCache, cache.IsReachable network →
      ∀ (candidate : Candidate) (record : Record) (world world' : World State),
        Log.fetch (World.send network) settings candidate world = (.ok record, world') →
          record.IsStable ∧
          (∀ (certificate : Certificate) (issuer : Issuer) (cache' : IssuerCache)
            (world world' : World State),
            certificate.resolveIssuer (World.send network) cache world =
              ((.ok issuer, cache'), world') → issuer.IsStable) ∧
          ∀ (date : Date) (error : RevocationError) (cache' : IssuerCache)
            (world world' : World State),
            Revocation.tryCheck (World.send network) record.der date cache world =
              ((.error error, cache'), world') → ¬ error.IsRelapse) ∧
    ∀ (cache : IssuerCache) (world : World State), Lifetime network settings cache world →
      ∀ (domain : String) (date : Date) (report : Report) (cache' : IssuerCache)
        (world' : World State),
        run (World.environment network) settings domain date cache world =
          ((.ok report, cache'), world') →
        ∀ outcome ∈ report.outcomes, ∀ (record : Record) (verdict : Verdict),
          outcome.Judges record verdict →
            record.IsStable ∧ ∀ error : RevocationError, error.IsRelapse →
              verdict ≠ .unknown error.message := by
  constructor
  · intro cache reached candidate record world world' fetched
    obtain ⟨_, _, _, reply, _, given⟩ :=
      (Log.fetch_proceeds network settings candidate).course_of_eq fetched
    have stable := Record.isStable_of_recordOf given.symm
    obtain ⟨certificate, read⟩ := stable.exists_certificate
    refine ⟨stable, ?_, ?_⟩
    · intro certificate issuer cache' world world' resolved
      obtain ⟨_, _, _, course⟩ :=
        (certificate.resolveIssuer_proceeds network cache).course_of_eq resolved
      exact course.isStable_of_ok reached.isStable
    · intro date error cache' world world' failed
      exact Revocation.not_isRelapse_of_tryCheck reached.isStable read failed
  · intro cache world life domain date report cache' world' ended outcome membership record
      verdict judges
    obtain ⟨state, made, told, result, _, files', _, course, same⟩ :=
      run_course network settings domain date cache world
    rw [ended] at same
    cases course with
    | @ended reply candidates inWindow segments tellings outcomes _ saved _ _ _ audited _ =>
        cases saved with
        | error error => cases same
        | ok paths =>
            cases same
            exact audited.of_judges life.backed.isStable membership judges

/-! The theorem at work. -/

theorem Audit.World.send_apply (network : Network State) (request : Request)
    (world : World State) :
    World.send network request world =
      ((network.answer request world.network).1,
        { world with
          network := (network.answer request world.network).2
          exchanges :=
            world.exchanges ++ [⟨request, (network.answer request world.network).1⟩] }) := rfl

theorem Log.fetch_apply (network : Network State) (settings : Settings) (candidate : Candidate)
    (world : World State) :
    (Log.fetch (World.send network) settings candidate world).1 =
      Log.recordOf (Log.bodyRequest settings candidate.id).url candidate
        (network.answer (Log.bodyRequest settings candidate.id) world.network).1 := rfl

namespace Resolutions

def exportedWorld : World Unit where
  network := ()
  files := {}

theorem exportingNetwork_resolves :
    ∃ world', sampleLeaf.resolveIssuer (World.send exportingNetwork) emptyCache exportedWorld =
      ((.ok sampleIssuer, filledCache), world') := by
  have absent : emptyCache.find? "i" = none := rfl
  have served : Issuer.ofReply "i" (exportingNetwork.answer (Issuer.request "i")
      exportedWorld.network).1 = .ok sampleIssuer := exportingNetwork_issuer
  simp only [Certificate.resolveIssuer, sampleLeaf_location, absent, bind, StateT.bind,
    World.send_apply, served]
  exact ⟨_, rfl⟩

theorem exportingNetwork_resolves_again :
    sampleLeaf.resolveIssuer (World.send exportingNetwork) filledCache exportedWorld =
      ((.ok sampleIssuer, filledCache), exportedWorld) := by
  rw [Certificate.resolveIssuer, sampleLeaf_location]
  rfl

theorem exportingNetwork_serves :
    ∃ record world', Log.fetch (World.send exportingNetwork) {} sampleCandidate exportedWorld =
      (.ok record, world') := by
  obtain ⟨⟨body, der, subject, usable, read, _⟩, _⟩ := names_saved
  have known : sampleCandidate.id = 7 := rfl
  have begun : exportedWorld.network = () := rfl
  have fetches : ∃ record, (Log.fetch (World.send exportingNetwork) {} sampleCandidate
      exportedWorld).1 = .ok record := by
    rw [Log.fetch_apply, known, begun, exportingNetwork_body]
    refine ⟨{
      id := sampleCandidate.id
      notBefore := sampleCandidate.notBefore
      notAfter := sampleCandidate.notAfter
      subject
      pem := String.ofList (Utf8.decodeLossy body)
      der }, ?_⟩
    exact Log.recordOf_eq_ok_iff.mpr ⟨body, subject, usable, read, rfl⟩
  obtain ⟨record, fetched⟩ := fetches
  exact ⟨record, _, Prod.ext fetched rfl⟩

end Resolutions

open Resolutions in
/-- An issuer that is fetched, kept and found again, beside a certificate that the log serves, and
a report on a certificate that is its own issuer. -/
theorem Revocation.second_reading_succeeds_sample :
    filledCache.IsReachable exportingNetwork ∧ sampleIssuer.IsStable ∧
    (∃ record world',
      Log.fetch (World.send exportingNetwork) {} sampleCandidate exportedWorld =
        (.ok record, world') ∧ record.IsStable) ∧
    ∃ (report : Report) (cache' : IssuerCache) (world' : World Unit) (record : Record)
      (verdict : Verdict),
      run (World.environment sampleNetwork) {} "example.com" sampleDate { enabled := true }
        { network := (), files := {} } = ((.ok report, cache'), world') ∧
      .accepted record verdict ∈ report.outcomes ∧ record.IsStable := by
  have fromCache := (second_reading_succeeds exportingNetwork {}).1
  have fromReport := (second_reading_succeeds sampleNetwork {}).2
  obtain ⟨resolved, resolves⟩ := exportingNetwork_resolves
  have reached : filledCache.IsReachable exportingNetwork := .resolve .start resolves
  obtain ⟨record, fetched, fetches⟩ := exportingNetwork_serves
  obtain ⟨stable, issuers, _⟩ := fromCache _ reached _ record _ _ fetches
  refine ⟨reached, issuers _ _ _ _ _ exportingNetwork_resolves_again,
    ⟨record, fetched, fetches, stable⟩, ?_⟩
  have accepts := sampleNetwork_accepts
  rcases ended : run (World.environment sampleNetwork) {} "example.com" sampleDate
    { enabled := true } { network := (), files := {} } with ⟨⟨result, cache'⟩, world'⟩
  rw [ended] at accepts
  cases result with
  | error error => cases accepts
  | ok report =>
      obtain ⟨outcome, only, accepted⟩ : ∃ outcome, report.outcomes = [outcome] ∧
          outcome.accepted?.isSome = true := by
        simpa [Except.toOption, List.map_eq_singleton_iff] using accepts
      have membership : outcome ∈ report.outcomes := by
        rw [only]
        exact List.mem_singleton_self _
      cases outcome with
      | accepted judged verdict =>
          refine ⟨report, cache', world', judged, verdict, rfl, membership, ?_⟩
          exact (fromReport _ _ .start _ _ _ _ _ ended _ membership _ _ (.inl rfl)).1
      | rejected => cases accepted
      | skipped => cases accepted

end CertificateAudit
