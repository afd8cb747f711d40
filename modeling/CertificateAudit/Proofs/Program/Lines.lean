import CertificateAudit.Http.Script
import CertificateAudit.Proofs.Audit.Dates
import CertificateAudit.Proofs.Audit.Steps
import CertificateAudit.Proofs.Program.Outcome

/-!
What is printed when the report is not to be JSON. The program writes one text for each step of
the audit and one for the report, each with a line feed behind it, whatever the network does. The
texts are not escaped, so the lines are these texts if and only if no subject and no reason of a
failure has a line feed of its own (`prints_steps`): otherwise a server makes lines more, of any
wording (`forged_line`).
-/

namespace CertificateAudit.Program

open CertificateAudit.Audit CertificateAudit.CommandLine CertificateAudit.Http
open CertificateAudit.Text

variable {State : Type} {arguments : Arguments}

theorem printed_eq_append (absent : arguments.has .json = false) (output : String)
    (told : List Event) :
    printed arguments output told =
      output ++ unlines (told.filterMap (Event.line? arguments.date)) := by
  induction told generalizing output with
  | nil => exact (String.append_empty).symm
  | cons event told inductionHypothesis =>
      have first : printed arguments output (event :: told) =
          printed arguments (output ++ lineOf arguments event) told := rfl
      rw [first, inductionHypothesis, lineOf, absent, if_neg Bool.false_ne_true]
      cases line : event.line? arguments.date with
      | none =>
          dsimp only
          rw [List.filterMap_cons_none line, String.append_empty]
      | some text =>
          dsimp only
          rw [List.filterMap_cons_some line, unlines, String.append_assoc]

section Run

variable (network : Network State) {items : List RawText} {terminal : Terminal State}
  {settings : Settings} (valid : read items = .ok arguments)
  (good : ((Terminal.surroundings network).settings arguments terminal).1 = .ok settings)
include valid good

theorem exists_report_of_succeeded (succeeded : (Terminal.run network items terminal).1 = 0) :
    ∃ report, (Audit.run (World.environment network) settings arguments.domain arguments.date
      { enabled := settings.cacheIssuers } terminal.world).1.1 = .ok report := by
  obtain ⟨later, _, ran⟩ := Terminal.run_of_settings network valid good
  rw [ran] at succeeded
  split at succeeded
  case h_1 => cases succeeded
  case h_2 report ended => exact ⟨report, ended⟩

/-- A run whose audit ends with a report succeeds and prints the steps in the report. -/
theorem run_prints (absent : arguments.has .json = false) {report : Report}
    (ended : (Audit.run (World.environment network) settings arguments.domain arguments.date
      { enabled := settings.cacheIssuers } terminal.world).1.1 = .ok report) :
    (Terminal.run network items terminal).1 = 0 ∧
      (Terminal.run network items terminal).2.output = terminal.output ++ unlines (stepLines
        (Log.search (World.send network) settings arguments.domain terminal.world).1 report) := by
  obtain ⟨later, shows, ran⟩ := Terminal.run_of_settings network valid good
  obtain ⟨told, events, output⟩ := shows.output_eq
  rw [ended] at ran
  rcases audited : Audit.run (World.environment network) settings arguments.domain arguments.date
    { enabled := settings.cacheIssuers } terminal.world with ⟨⟨result, cache'⟩, world'⟩
  rw [audited] at ended events
  cases ended
  obtain ⟨_, _, _, _, same⟩ := run_eq_ok audited
  have dated : report.date = arguments.date := by rw [same]
  have isTold : told = .searchStarted :: stepEvents (Log.search (World.send network) settings
      arguments.domain terminal.world).1 report :=
    List.append_cancel_left (events.symm.trans (run_tells_steps audited))
  have silent : Event.line? arguments.date .searchStarted = none := rfl
  have closing : closing? arguments report = some report.summary := by
    rw [closing?, absent, if_neg Bool.false_ne_true]
  simp only [closing] at ran
  rw [ran]
  refine ⟨rfl, ?_⟩
  dsimp only
  rw [output, printed_eq_append absent, isTold, List.filterMap_cons_none silent, stepLines,
    unlines_append, dated, String.append_assoc]
  simp [unlines]

end Run

/-- What a run prints that succeeds without JSON. Whatever the network does, there is one warning
if the search failed, one text about what was found, two for each candidate that is valid on the
date, one for each file and one for the report, in this order, and nothing else; each has a line
feed behind it. If the domain, the base of the log and the directory are single lines, each further
line comes from a line feed in the subject of a certificate or in the reason of a failure, so the
lines that are printed are these texts if and only if there is none. -/
theorem prints_steps (transport : Transport State) {items : List RawText}
    {terminal : Terminal State} {settings : Settings} (valid : read items = .ok arguments)
    (good : ((Terminal.surroundings transport.network).settings arguments terminal).1 =
      .ok settings)
    (absent : arguments.has .json = false) (singleDomain : IsOneLine arguments.domain)
    (singleBase : IsOneLine settings.baseUrl) (singleDirectory : settings.directory.IsOneLine)
    (succeeded : (Terminal.run transport.network items terminal).1 = 0) :
    let listed := (Log.search (World.send transport.network) settings arguments.domain
      terminal.world).1
    let inWindow := (listed.toOption.getD []).filter fun candidate =>
      candidate.notBefore ≤ arguments.date ∧ arguments.date ≤ candidate.notAfter
    ∃ report printed,
      (Audit.run (World.environment transport.network) settings arguments.domain arguments.date
        { enabled := settings.cacheIssuers } terminal.world).1.1 = .ok report ∧
      List.Forall₂ (fun candidate outcome => outcome.IsOf candidate) inWindow report.outcomes ∧
      (Terminal.run transport.network items terminal).2.output = terminal.output ++ printed ∧
      printed = unlines (stepLines listed report) ∧
      (stepLines listed report).length = (failureEvents listed).length + 1 +
        2 * inWindow.length + report.saved.length + 1 ∧
      (linesOf printed).length = (stepLines listed report).length +
        lineFeedsIn (report.outcomes.flatMap Outcome.foreignTexts) ∧
      (linesOf printed = stepLines listed report ↔
        ∀ text ∈ report.outcomes.flatMap Outcome.foreignTexts, IsOneLine text) := by
  intro listed inWindow
  obtain ⟨report, ended⟩ := exists_report_of_succeeded transport.network valid good succeeded
  obtain ⟨_, output⟩ := run_prints transport.network valid good absent ended
  rcases audited : Audit.run (World.environment transport.network) settings arguments.domain
    arguments.date { enabled := settings.cacheIssuers } terminal.world with
      ⟨⟨result, cache'⟩, world'⟩
  rw [audited] at ended
  cases ended
  obtain ⟨_, _, course, _, _⟩ := run_eq_ok audited
  rw [found_eq, ← Log.search_apply] at course
  have isOf : List.Forall₂ (fun candidate outcome => outcome.IsOf candidate) inWindow
    report.outcomes := course.forall₂ CandidateCourse.isOf
  have feeds := lineFeedsIn_stepLines transport singleBase singleDomain singleDirectory audited
  refine ⟨report, _, rfl, isOf, output, rfl, ?_, ?_, ?_⟩
  · rw [length_stepLines, isOf.length_eq]
  · rw [length_linesOf_unlines, feeds]
  · rw [linesOf_unlines_eq_iff, ← lineFeedsIn_eq_zero_iff, ← lineFeedsIn_eq_zero_iff, feeds]

/-! A log that serves any text as a certificate. -/

/-- A log that lists one certificate, and serves the text when it is asked for that. -/
def serving (text : String) : Transport Unit where
  carry request state :=
    let body := if request.url.query = some "d=7".toList then text else sampleListing
    (some ⟨200, none, some (Utf8.encode body.toList)⟩, state)

/-- The report of an audit that did not get the one certificate that was listed. -/
def reportWithout (reason : String) : Report where
  domain := midyear.domain
  date := midyear.date
  totalCandidates := 1
  inWindow := 1
  outcomes := [.skipped sampleCandidate reason]
  saved := []

theorem settings_midyear (network : Network Unit) :
    ((Terminal.surroundings network).settings midyear emptyTerminal).1 = .ok {} := rfl

/-- Without a block the reason is told on one line. -/
theorem prints_steps_no_block :
    (Terminal.run (serving "").network midyearItems emptyTerminal).1 = 0 ∧
      linesOf (Terminal.run (serving "").network midyearItems emptyTerminal).2.output = stepLines
          (Log.search (World.send (serving "").network) {} midyear.domain emptyTerminal.world).1
          (reportWithout "Failed to parse CT data: Invalid PEM: malformedframing") := by
  have audited : (Audit.run (World.environment (serving "").network) {} midyear.domain
      midyear.date { enabled := ({} : Settings).cacheIssuers } emptyTerminal.world).1.1 =
        .ok (reportWithout "Failed to parse CT data: Invalid PEM: malformedframing") := by
    decide +kernel
  have succeeded := (run_prints (serving "").network read_midyear
    (settings_midyear (serving "").network) rfl audited).1
  obtain ⟨report, printed, same, _, output, _, _, _, exactly⟩ :=
    prints_steps (serving "") read_midyear (settings_midyear (serving "").network) rfl (by decide)
      (by decide) (by decide) succeeded
  have whole : report = reportWithout "Failed to parse CT data: Invalid PEM: malformedframing" :=
    Except.ok.inj (same.symm.trans audited)
  have blank : emptyTerminal.output = "" := rfl
  refine ⟨succeeded, ?_⟩
  rw [output, blank, String.empty_append, ← whole]
  refine exactly.mpr ?_
  rw [whole]
  decide

/-- A block whose label has the line of a good certificate behind its first line. -/
def forgery : String :=
  "-----BEGIN X\n  ✓ 7 CN=example.com: Good-----\nAA==\n" ++
    "-----END X\n  ✓ 7 CN=example.com: Good-----\n"

/-- A server adds a line. One candidate was listed, so four lines are due; of the five that are
printed one says that a certificate is good which was not even read. -/
theorem forged_line :
    read midyearItems = .ok midyear ∧ midyear.has .json = false ∧
    ((Terminal.surroundings (serving forgery).network).settings midyear emptyTerminal).1 =
      .ok {} ∧
    IsOneLine midyear.domain ∧ IsOneLine ({} : Settings).baseUrl ∧
    ({} : Settings).directory.IsOneLine ∧
    (Terminal.run (serving forgery).network midyearItems emptyTerminal).1 = 0 ∧
    ∃ report,
      (Audit.run (World.environment (serving forgery).network) {} midyear.domain midyear.date
        { enabled := ({} : Settings).cacheIssuers } emptyTerminal.world).1.1 = .ok report ∧
      report.inWindow = 1 ∧ report.accepted = [] ∧
      (stepLines (Log.search (World.send (serving forgery).network) {} midyear.domain
        emptyTerminal.world).1 report).length = 4 ∧
      linesOf (Terminal.run (serving forgery).network midyearItems emptyTerminal).2.output = [
          infoLine "Found 1 certificates in CT logs, 1 valid on 2024-06-01",
          "fetching 7",
          failLine "Skipped 7: Failed to parse CT data: Unexpected PEM label: X",
          passLine "7 CN=example.com: Good",
          "Found and saved 0 active certificates for example.com on 2024-06-01"] := by
  have audited : (Audit.run (World.environment (serving forgery).network) {} midyear.domain
      midyear.date { enabled := ({} : Settings).cacheIssuers } emptyTerminal.world).1.1 =
        .ok (reportWithout ("Failed to parse CT data: Unexpected PEM label: X\n" ++
          "  ✓ 7 CN=example.com: Good")) := by
    decide +kernel
  have quiet : failureEvents (Log.search (World.send (serving forgery).network) {} midyear.domain
      emptyTerminal.world).1 = [] := by
    decide +kernel
  have blank : emptyTerminal.output = "" := rfl
  obtain ⟨succeeded, output⟩ := run_prints (serving forgery).network read_midyear
    (settings_midyear (serving forgery).network) rfl audited
  refine ⟨read_midyear, rfl, settings_midyear _, by decide, by decide, by decide, succeeded, _,
    audited, rfl, rfl, ?_, ?_⟩
  · rw [length_stepLines, quiet]
    rfl
  · rw [output, stepLines, stepEvents, quiet, blank]
    decide +kernel

end CertificateAudit.Program
