import CertificateAudit.Json.Printer
import CertificateAudit.Log.Client
import CertificateAudit.Text.RawText
import CertificateAudit.Verdict

/-!
The report of an audit: one outcome for each candidate that was valid on the date, the files
that were saved, and the JSON form of it all.
-/

namespace CertificateAudit

open CertificateAudit.Calendar CertificateAudit.Text

inductive Outcome where
  | accepted (record : Record) (verdict : Verdict)
  | rejected (record : Record) (verdict : Verdict)
  /-- The certificate itself could not be had. -/
  | skipped (candidate : Candidate) (reason : String)
deriving DecidableEq

namespace Outcome

def accepted? : Outcome → Option Record
  | .accepted record _ => some record
  | _ => none

def ofVerdict (record : Record) (verdict : Verdict) : Outcome :=
  if verdict.isValid then .accepted record verdict else .rejected record verdict

end Outcome

structure Report where
  domain : String
  date : Date
  totalCandidates : Nat
  /-- How many of them were valid on the date. -/
  inWindow : Nat
  outcomes : List Outcome
  saved : List RawText
deriving DecidableEq

namespace Verdict

def revocationMembers (revokedOn : Date) (reason : Option String) :
    List (Option String × Json) :=
  [(some "revoked_on", .ofText revokedOn.text), (some "reason", .ofText? reason)]

def toJson : Verdict → Json
  | .good => .object [(some "verdict", .ofText "good")]
  | .revokedBefore revokedOn reason =>
      .object ((some "verdict", .ofText "revoked_before_date") ::
        revocationMembers revokedOn reason)
  | .revokedLater revokedOn reason =>
      .object ((some "verdict", .ofText "revoked_after_or_on_date") ::
        revocationMembers revokedOn reason)
  | .unknown reason =>
      .object [(some "verdict", .ofText "unknown"), (some "reason", .ofText reason)]

end Verdict

def Record.members (record : Record) : List (Option String × Json) :=
  [(some "id", .ofInt record.id), (some "not_before", .ofText record.notBefore.text),
    (some "not_after", .ofText record.notAfter.text), (some "subject", .ofText record.subject),
    (some "pem", .ofText record.pem)]

def Candidate.members (candidate : Candidate) : List (Option String × Json) :=
  [(some "id", .ofInt candidate.id), (some "not_before", .ofText candidate.notBefore.text),
    (some "not_after", .ofText candidate.notAfter.text),
    (some "common_name", .ofText? candidate.commonName),
    (some "issuer_name", .ofText? candidate.issuerName),
    (some "serial_number", .ofText? candidate.serialNumber)]

def Outcome.toJson : Outcome → Json
  | .accepted record verdict =>
      .object ((some "outcome", .ofText "accepted") :: record.members ++
        [(some "verdict", verdict.toJson)])
  | .rejected record verdict =>
      .object ((some "outcome", .ofText "rejected") :: record.members ++
        [(some "verdict", verdict.toJson)])
  | .skipped candidate reason =>
      .object ((some "outcome", .ofText "skipped") :: candidate.members ++
        [(some "reason", .ofText reason)])

namespace Report

def accepted (report : Report) : List Record :=
  report.outcomes.filterMap Outcome.accepted?

def summary (report : Report) : String :=
  "Found and saved " ++ toString report.saved.length ++ " active certificates for " ++
    report.domain ++ " on " ++ report.date.text

/-- The JSON form of a report that was saved under paths with these texts. -/
def toJson (report : Report) (saved : List String) : Json :=
  .object [
    (some "domain", .ofText report.domain),
    (some "date", .ofText report.date.text),
    (some "total_candidates", .ofInt report.totalCandidates),
    (some "in_window", .ofInt report.inWindow),
    (some "outcomes", .array (report.outcomes.map Outcome.toJson)),
    (some "saved", .array (saved.map Json.ofText))]

/-- The report as JSON. There is none if one of the paths spells no text. -/
def pretty? (report : Report) : Option String := do
  let saved ← report.saved.mapM RawText.text?
  pure (report.toJson saved).print

end Report

end CertificateAudit
