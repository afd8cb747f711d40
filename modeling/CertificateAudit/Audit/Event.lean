import CertificateAudit.Report

/-!
What an audit tells while it runs, and the lines in which it is told.
-/

namespace CertificateAudit.Audit

open CertificateAudit.Calendar CertificateAudit.Text

inductive Event where
  | searchStarted
  | searchFailed (message : String)
  | searchComplete (total inWindow : Nat)
  | fetching (id : Int)
  | fetchFailed (id : Int) (reason : String)
  | verdictReached (id : Int) (subject : String) (verdict : Verdict)
  | saved (path : RawText)
deriving DecidableEq

def passLine (text : String) : String := "  ✓ " ++ text

def failLine (text : String) : String := "  ✗ " ++ text

def warningLine (text : String) : String := "  ⚠ " ++ text

def infoLine (text : String) : String := "  ℹ " ++ text

def verdictLine (id : Int) (subject : String) (verdict : Verdict) : String :=
  let text := toString id ++ " " ++ subject ++ ": " ++ verdict.text
  if verdict.isValid then passLine text
  else if verdict.isUnknown then warningLine text
  else failLine text

/-- The line in which a step is told; the start is not. -/
def Event.line? (date : Date) : Event → Option String
  | .searchStarted => none
  | .searchFailed message => some (warningLine ("CT search failed: " ++ message))
  | .searchComplete total inWindow =>
      some (infoLine ("Found " ++ toString total ++ " certificates in CT logs, " ++
        toString inWindow ++ " valid on " ++ date.text))
  | .fetching id => some ("fetching " ++ toString id)
  | .fetchFailed id reason => some (failLine ("Skipped " ++ toString id ++ ": " ++ reason))
  | .verdictReached id subject verdict => some (verdictLine id subject verdict)
  | .saved path => some ("Saved certificate: " ++ path.shown)

end CertificateAudit.Audit
