import CertificateAudit.Http.Client
import CertificateAudit.Proofs.Audit.Acceptance
import CertificateAudit.Proofs.Audit.RunCourse
import CertificateAudit.Proofs.Audit.Simulation
import CertificateAudit.Proofs.CommandLine.Json
import CertificateAudit.Proofs.Program.Settings
import CertificateAudit.Proofs.Report.Reading
import CertificateAudit.Proofs.Store.Save

/-!
What a run of the program comes to. The program's audit is an audit of the world of its
terminal whose events are printed instead of recorded (`Shows`), so its exit code is decided by
the command line, the settings and the saving, unless the report is to be JSON and one of the saved
paths is no text: `run_ends`.
-/

namespace CertificateAudit.Program

open CertificateAudit.Audit CertificateAudit.CommandLine CertificateAudit.Http
open CertificateAudit.Store CertificateAudit.Text

variable {State : Type} {arguments : Arguments}

/-- What is printed when a step is told. -/
def lineOf (arguments : Arguments) (event : Event) : String :=
  if arguments.has .json then ""
  else
    match event.line? arguments.date with
    | some line => line ++ "\n"
    | none => ""

/-- The output after steps were told. -/
def printed (arguments : Arguments) (output : String) (told : List Event) : String :=
  told.foldl (fun output event => output ++ lineOf arguments event) output

theorem printed_concat (arguments : Arguments) (output : String) (told : List Event)
    (event : Event) :
    printed arguments output (told ++ [event]) =
      printed arguments output told ++ lineOf arguments event := by
  rw [printed, List.foldl_append]
  rfl

theorem printed_json (json : arguments.has .json = true) (output : String) (told : List Event) :
    printed arguments output told = output := by
  induction told with
  | nil => rfl
  | cons event told inductionHypothesis =>
      rw [printed, List.foldl_cons, lineOf, if_pos json, String.append_empty]
      exact inductionHypothesis

/-- The terminal has the world, but for its events: since the first terminal they were printed. -/
structure Shows (arguments : Arguments) (first terminal : Terminal State)
    (world : World State) : Prop where
  world_eq : terminal.world = { world with events := first.world.events }
  output_eq : ∃ told, world.events = first.world.events ++ told ∧
    terminal.output = printed arguments first.output told
  errors_eq : terminal.errors = first.errors

theorem Shows.refl (arguments : Arguments) (terminal : Terminal State) :
    Shows arguments terminal terminal terminal.world :=
  ⟨rfl, ⟨[], by simp, rfl⟩, rfl⟩

/-- What an audit does before it saves anything does not touch the files, and its result is that
of the saving. -/
theorem run_saves (network : Network State) (settings : Settings) (domain : String)
    (date : Calendar.Date) (cache : IssuerCache) (world : World State) :
    let found := auditFound (World.environment network) settings domain date cache world
    let saving := save FileTree.disk settings.directory domain date (acceptedDers found.1.2.1)
      world.files
    let audit := Audit.run (World.environment network) settings domain date cache world
    audit.2 = { found.2 with
        files := saving.2, events := found.2.events ++ savedEvents saving.1 } ∧
      audit.1.1.map Report.saved = saving.1 := by
  obtain ⟨state, made, told, ⟨candidates, outcomes, cache'⟩, _, _, ran⟩ :=
    auditFound_proceeds network settings domain date cache world
  rcases stored : save FileTree.disk settings.directory domain date (acceptedDers outcomes)
    world.files with ⟨saved, files⟩
  have ended := saveFound_apply network settings domain date candidates outcomes cache'
    (world.after state made told) stored
  rw [run_eq_bind, Agree.bind_apply, ran]
  dsimp only
  rw [ended, stored]
  refine ⟨rfl, ?_⟩
  cases saved <;> rfl

namespace Terminal

theorem onWorld_agrees {α : Type} {first : Terminal State}
    {operation : StateM (World State) α}
    (blind : ∀ world events, operation { world with events } =
      ((operation world).1, { (operation world).2 with events }))
    (quiet : ∀ world, (operation world).2.events = world.events) :
    Agree (Shows arguments first) (onWorld operation) operation := by
  rintro ⟨_, output, errors⟩ world ⟨rfl, ⟨told, events, shown⟩, noErrors⟩
  have same := blind world first.world.events
  refine ⟨?_, ?_, ⟨told, (quiet world).trans events, shown⟩, noErrors⟩
  · exact congrArg Prod.fst same
  · exact congrArg Prod.snd same

theorem tell_apply (network : Network State) (arguments : Arguments) (event : Event)
    (terminal : Terminal State) :
    (surroundings network).tell arguments event terminal =
      ((), { terminal with output := terminal.output ++ lineOf arguments event }) := by
  unfold Surroundings.tell lineOf
  by_cases json : arguments.has .json = true
  · rw [if_pos json, if_pos json, String.append_empty]
    rfl
  · rw [if_neg json, if_neg json]
    cases event.line? arguments.date with
    | some line => rfl
    | none =>
        dsimp only
        rw [String.append_empty]
        rfl

theorem tell_agrees (network : Network State) (first : Terminal State) (event : Event) :
    Agree (Shows arguments first) ((surroundings network).tell arguments event)
      (World.notify event) := by
  rintro terminal world ⟨sameWorld, ⟨told, events, shown⟩, noErrors⟩
  rw [tell_apply]
  refine ⟨rfl, sameWorld, ⟨told ++ [event], ?_, ?_⟩, noErrors⟩
  · rw [← List.append_assoc, ← events]
    rfl
  · rw [printed_concat, ← shown]

theorem environment_agrees (network : Network State) (first : Terminal State) :
    ((surroundings network).environment arguments).Agrees (Shows arguments first)
      (World.environment network) where
  send _ := onWorld_agrees (fun _ _ => rfl) fun _ => rfl
  createDirectories _ := onWorld_agrees (fun _ _ => rfl) fun _ => rfl
  writeFile _ _ := onWorld_agrees (fun _ _ => rfl) fun _ => rfl
  notify event := tell_agrees network first event

/-- Looking for settings changes nothing. -/
theorem settings_apply (network : Network State) (arguments : Arguments)
    (terminal : Terminal State) :
    ((surroundings network).settings arguments terminal).2 = terminal := rfl

/-- The audit that the program runs is an audit of the world, with its steps printed. -/
theorem audit_apply (network : Network State) {settings : Settings} (terminal : Terminal State)
    (found : ((surroundings network).settings arguments terminal).1 = .ok settings) :
    let audit := Audit.run (World.environment network) settings arguments.domain arguments.date
      { enabled := settings.cacheIssuers } terminal.world
    ∃ later, Shows arguments terminal later audit.2 ∧
      (surroundings network).audit arguments terminal =
        match audit.1.1 with
        | .error error => (.error (.store error), later)
        | .ok report =>
            match closing? arguments report with
            | none => (.error .report, later)
            | some text => (.ok (), { later with output := later.output ++ (text ++ "\n") }) := by
  have looked : (surroundings network).settings arguments terminal = (.ok settings, terminal) :=
    Prod.ext found (settings_apply network arguments terminal)
  obtain ⟨sameValue, shows⟩ := (environment_agrees network terminal).run settings
    arguments.domain arguments.date { enabled := settings.cacheIssuers } terminal terminal.world
    (.refl arguments terminal)
  refine ⟨_, shows, ?_⟩
  rw [Surroundings.audit, Agree.bind_apply, looked, ← sameValue]
  dsimp only
  rw [Agree.bind_apply]
  generalize Audit.run ((surroundings network).environment arguments) settings arguments.domain
    arguments.date { enabled := settings.cacheIssuers } terminal = ended
  obtain ⟨⟨result, cache⟩, later⟩ := ended
  cases result with
  | error error => rfl
  | ok report =>
      dsimp only
      unfold Surroundings.conclude
      cases closing? arguments report <;> rfl

theorem run_of_settings_error (network : Network State) {items : List RawText}
    {terminal : Terminal State} {error : SettingsError}
    (valid : CommandLine.read items = .ok arguments)
    (bad : ((surroundings network).settings arguments terminal).1 = .error error) :
    run network items terminal = (1, { terminal with
      errors := terminal.errors ++ ((AuditError.settings error).line ++ "\n") }) := by
  have looked : (surroundings network).settings arguments terminal = (.error error, terminal) :=
    Prod.ext bad (settings_apply network arguments terminal)
  rw [run, Surroundings.run, valid]
  dsimp only
  rw [Agree.bind_apply, Surroundings.audit, Agree.bind_apply, looked]
  rfl

theorem run_of_settings (network : Network State) {items : List RawText}
    {terminal : Terminal State} {settings : Settings}
    (valid : CommandLine.read items = .ok arguments)
    (good : ((surroundings network).settings arguments terminal).1 = .ok settings) :
    let audit := Audit.run (World.environment network) settings arguments.domain arguments.date
      { enabled := settings.cacheIssuers } terminal.world
    ∃ later, Shows arguments terminal later audit.2 ∧
      run network items terminal =
        match audit.1.1 with
        | .error error => (1, { later with
            errors := later.errors ++ ((AuditError.store error).line ++ "\n") })
        | .ok report =>
            match closing? arguments report with
            | none => (1, { later with
                errors := later.errors ++ (AuditError.report.line ++ "\n") })
            | some text => (0, { later with output := later.output ++ (text ++ "\n") }) := by
  obtain ⟨later, shows, ran⟩ := audit_apply network terminal good
  refine ⟨later, shows, ?_⟩
  rw [run, Surroundings.run, valid]
  dsimp only
  rw [Agree.bind_apply, ran]
  split
  · rfl
  · split <;> rfl

end Terminal

/-- A report can be told unless it is to be JSON and one of its paths is no text. -/
theorem isSome_closing?_iff (arguments : Arguments) (report : Report) :
    (closing? arguments report).isSome = true ↔
      (arguments.has .json = true → ∀ path ∈ report.saved, path.IsText) := by
  unfold closing?
  split
  case isTrue json =>
    rw [Option.isSome_iff_exists, report.exists_pretty?_iff]
    exact ⟨fun texts _ => texts, fun texts => texts json⟩
  case isFalse json => exact iff_of_true rfl fun isJson => absurd isJson json

/-- The saving in the audit that is asked for. -/
def saving (network : Network State) (arguments : Arguments) (settings : Settings)
    (terminal : Terminal State) : Except SaveError (List RawText) × FileTree :=
  let found := auditFound (World.environment network) settings arguments.domain arguments.date
    { enabled := settings.cacheIssuers } terminal.world
  save FileTree.disk settings.directory arguments.domain arguments.date
    (acceptedDers found.1.2.1) terminal.world.files

/-- How a run ends that has settings. -/
structure EndsBySaving (network : Network State) (arguments : Arguments) (settings : Settings)
    (terminal : Terminal State) (ended : Nat × Terminal State) : Prop where
  fails_iff : ended.1 = 1 ↔ (∃ error, (saving network arguments settings terminal).1 =
      .error error) ∨
    arguments.has .json = true ∧ ∃ paths, (saving network arguments settings terminal).1 =
      .ok paths ∧ ∃ path ∈ paths, ¬ path.IsText
  succeeds_iff : ended.1 = 0 ↔ ∃ paths, (saving network arguments settings terminal).1 =
      .ok paths ∧ (arguments.has .json = true → ∀ path ∈ paths, path.IsText)
  /-- The world is as the search, the audits of the candidates and the saving leave it. -/
  world_eq : ended.2.world = { (auditFound (World.environment network) settings arguments.domain
      arguments.date { enabled := settings.cacheIssuers } terminal.world).2 with
    files := (saving network arguments settings terminal).2
    events := terminal.world.events }
  /-- With the report as JSON nothing else is printed. -/
  silent : arguments.has .json = true → ended.1 = 1 → ended.2.output = terminal.output
  tells : arguments.has .json = true → ended.1 = 0 → ∃ report text,
    (Audit.run (World.environment network) settings arguments.domain arguments.date
      { enabled := settings.cacheIssuers } terminal.world).1.1 = .ok report ∧
    report.pretty? = some text ∧ ended.2.output = terminal.output ++ (text ++ "\n")

section Run

variable (network : Network State) {items : List RawText} {terminal : Terminal State}
  {settings : Settings} (valid : read items = .ok arguments)
include valid

theorem run_of_areUnusable
    (unusable : Settings.AreUnusable terminal.world.files arguments.settingsFile) :
    (Terminal.run network items terminal).1 = 1 ∧
      (Terminal.run network items terminal).2.world = terminal.world ∧
      (Terminal.run network items terminal).2.output = terminal.output := by
  obtain ⟨error, bad⟩ := Terminal.exists_settings_error network unusable
  rw [Terminal.run_of_settings_error network valid bad]
  exact ⟨rfl, rfl, rfl⟩

theorem endsBySaving
    (good : ((Terminal.surroundings network).settings arguments terminal).1 = .ok settings) :
    EndsBySaving network arguments settings terminal (Terminal.run network items terminal) := by
  obtain ⟨sameWorld, sameResult⟩ := run_saves network settings arguments.domain arguments.date
    { enabled := settings.cacheIssuers } terminal.world
  change _ = (saving network arguments settings terminal).1 at sameResult
  obtain ⟨later, shows, ran⟩ := Terminal.run_of_settings network valid good
  obtain ⟨told, _, output⟩ := shows.output_eq
  have silent (json : arguments.has .json = true) : later.output = terminal.output := by
    rw [output, printed_json json]
  have world : later.world = _ := shows.world_eq
  rw [sameWorld] at world
  cases audited : (Audit.run (World.environment network) settings arguments.domain arguments.date
    { enabled := settings.cacheIssuers } terminal.world).1.1 with
  | error error =>
      rw [audited] at ran sameResult
      have failed : (saving network arguments settings terminal).1 = .error error :=
        sameResult.symm
      rw [ran]
      exact {
        fails_iff := iff_of_true rfl (.inl ⟨error, failed⟩)
        succeeds_iff := by simp [failed]
        world_eq := world
        silent := fun json _ => silent json
        tells := nofun }
  | ok report =>
      rw [audited] at ran sameResult
      have saved : (saving network arguments settings terminal).1 = .ok report.saved :=
        sameResult.symm
      have told := isSome_closing?_iff arguments report
      cases closing : closing? arguments report with
      | none =>
          simp only [closing] at told ran
          have untold := mt told.mpr Bool.false_ne_true
          push Not at untold
          rw [ran]
          exact {
            fails_iff := iff_of_true rfl (.inr ⟨untold.1, report.saved, saved, untold.2⟩)
            succeeds_iff := by simpa [saved] using untold
            world_eq := world
            silent := fun json _ => silent json
            tells := nofun }
      | some text =>
          simp only [closing] at told ran
          have texts := told.mp rfl
          rw [ran]
          exact {
            fails_iff := by simpa [saved] using texts
            succeeds_iff := iff_of_true rfl ⟨report.saved, saved, texts⟩
            world_eq := world
            silent := nofun
            tells := by
              intro json _
              rw [closing?, if_pos json] at closing
              refine ⟨report, text, audited, closing, ?_⟩
              dsimp only
              rw [silent json] }

end Run

/-- The command lines ask for the same, but maybe for another form of the report. -/
def SameButJson (arguments other : Arguments) : Prop :=
  { arguments with flags := arguments.flags.filter (· != Flag.json) } =
    { other with flags := other.flags.filter (· != Flag.json) }

namespace SameButJson

variable {other : Arguments} (same : SameButJson arguments other)
include same

theorem settingsFile_eq : other.settingsFile = arguments.settingsFile :=
  (congrArg Arguments.settingsFile same).symm

theorem override_eq : other.override = arguments.override := by
  have directory : other.outputDirectory = arguments.outputDirectory :=
    (congrArg Arguments.outputDirectory same).symm
  have flags : other.flags.filter (· != Flag.json) = arguments.flags.filter (· != Flag.json) :=
    (congrArg Arguments.flags same).symm
  have kept : ∀ flags : List Flag, flags.contains .noIssuerCache =
      (flags.filter (· != Flag.json)).contains .noIssuerCache := by
    intro flags
    simp [List.contains_eq_mem, List.mem_filter]
  funext settings
  rw [Arguments.override, Arguments.override, Arguments.has, Arguments.has, kept other.flags,
    flags, ← kept arguments.flags, directory]

theorem auditFound_eq (network : Network State) (settings : Settings) (cache : IssuerCache) :
    auditFound (World.environment network) settings other.domain other.date cache =
      auditFound (World.environment network) settings arguments.domain arguments.date cache := by
  have domain : other.domain = arguments.domain := (congrArg Arguments.domain same).symm
  have date : other.date = arguments.date := (congrArg Arguments.date same).symm
  rw [domain, date]

theorem saving_eq (network : Network State) (settings : Settings) (terminal : Terminal State) :
    saving network other settings terminal = saving network arguments settings terminal := by
  have domain : other.domain = arguments.domain := (congrArg Arguments.domain same).symm
  have date : other.date = arguments.date := (congrArg Arguments.date same).symm
  rw [saving, saving, domain, date]

/-- The form of the report changes nothing in the world, and the exit code only if a path that was
saved is no text. -/
theorem run_eq (network : Network State) {items items' : List RawText}
    {terminal : Terminal State} (valid : read items = .ok arguments)
    (valid' : read items' = .ok other) :
    (Terminal.run network items' terminal).2.world = (Terminal.run network items terminal).2.world ∧
      ((∀ given : Settings, given.AreGiven terminal.world.files arguments.settingsFile →
        ∀ paths, (saving network arguments (arguments.override given) terminal).1 = .ok paths →
          ∀ path ∈ paths, path.IsText) →
        (Terminal.run network items' terminal).1 = (Terminal.run network items terminal).1) := by
  rcases Settings.areUnusable_or_areGiven terminal.world.files arguments.settingsFile with
    unusable | ⟨given, isGiven⟩
  · obtain ⟨code, world, _⟩ := run_of_areUnusable network valid unusable
    rw [← same.settingsFile_eq] at unusable
    obtain ⟨code', world', _⟩ := run_of_areUnusable network valid' unusable
    exact ⟨world'.trans world.symm, fun _ => code'.trans code.symm⟩
  · have ends := endsBySaving network valid (Terminal.settings_of_areGiven network isGiven)
    have isGiven' := isGiven
    rw [← same.settingsFile_eq] at isGiven'
    have ends' := endsBySaving network valid' (Terminal.settings_of_areGiven network isGiven')
    rw [same.override_eq] at ends'
    refine ⟨?_, ?_⟩
    · rw [ends.world_eq, ends'.world_eq, same.auditFound_eq, same.saving_eq]
    · intro texts
      cases saved : (saving network arguments (arguments.override given) terminal).1 with
      | error error =>
          have failed := saved
          rw [← same.saving_eq] at failed
          exact (ends'.fails_iff.mpr (.inl ⟨error, failed⟩)).trans
            (ends.fails_iff.mpr (.inl ⟨error, saved⟩)).symm
      | ok paths =>
          have spelled := texts given isGiven paths saved
          have saved' := saved
          rw [← same.saving_eq] at saved'
          exact (ends'.succeeds_iff.mpr ⟨paths, saved', fun _ => spelled⟩).trans
            (ends.succeeds_iff.mpr ⟨paths, saved, fun _ => spelled⟩).symm

end SameButJson

/-- Every path is a text if the directory for results is one. -/
theorem isText_of_saving {network : Network State} {settings : Settings}
    {terminal : Terminal State} {paths : List RawText} (isText : settings.directory.IsText)
    (saved : (saving network arguments settings terminal).1 = .ok paths) :
    ∀ path ∈ paths, path.IsText := by
  intro path membership
  rw [save_paths (Prod.ext saved rfl)] at membership
  obtain ⟨index, _, rfl⟩ := List.mem_map.mp membership
  exact Path.isText_join (Path.isText_join isText ⟨_, rfl⟩) ⟨_, rfl⟩

theorem isText_override_directory {settings : Settings} (isText : settings.directory.IsText)
    (named : ∀ path ∈ arguments.outputDirectory, path.IsText) :
    (arguments.override settings).directory.IsText := by
  rw [Arguments.override]
  cases directory : arguments.outputDirectory with
  | none => exact isText
  | some path => exact named path directory

def emptyTerminal : Terminal Unit where
  world := { network := (), files := {} }

/-- The settings file would be in a directory where a file is. -/
def blockedTerminal : Terminal Unit where
  world := { network := (), files := ⟨[(["config"], .file [0x78])], []⟩ }

def midyear : Arguments where
  domain := "example.com"
  date := sampleDate
  outputDirectory := none
  settingsFile := none
  flags := []

/-- What is typed for it. -/
def midyearItems : List RawText :=
  ["example.com", "2024-06-01"]

theorem read_midyear : read midyearItems = .ok midyear := by
  decide +kernel

/-- The same, with results in a directory whose name is no text. -/
def midyearRaw : Arguments :=
  { midyear with outputDirectory := some ⟨[0xff]⟩ }

def midyearRawItems : List RawText :=
  ["-o", ⟨[0xff]⟩, "example.com", "2024-06-01"]

theorem read_midyearRaw : read midyearRawItems = .ok midyearRaw := by
  decide +kernel

/-- Where the certificate of the sample network is saved then. -/
def midyearRawPath : RawText :=
  RawText.mk [0xff] ++ "/example.com_2024-06-01/example.com_2024-06-01_0.pem"

theorem saving_midyearRaw :
    (saving sampleNetwork midyearRaw (midyearRaw.override {}) emptyTerminal).1 =
      .ok [midyearRawPath] := by
  decide +kernel

end CertificateAudit.Program
