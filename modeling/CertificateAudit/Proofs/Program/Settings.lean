import CertificateAudit.Program.Terminal
import CertificateAudit.Proofs.Settings.Overlay
import CertificateAudit.Proofs.Text.RawText

/-!
Which settings a run has, told from the file tree alone. Either the file that counts gives settings
(`Settings.AreGiven`) or it is of no use (`Settings.AreUnusable`); the program finds the settings in
the first case and an error in the second.
-/

namespace CertificateAudit

open CertificateAudit.CommandLine CertificateAudit.Http CertificateAudit.Store
open CertificateAudit.Text

namespace Settings

/-- The settings of a run without those of its command line. -/
inductive AreGiven (files : FileTree) : Option RawText → Settings → Prop where
  /-- The defaults, if no file is named and nothing can be reached where the usual one would be. -/
  | defaults : files.nodeAt? usualFile = none → AreGiven files none {}
  | file {named text settings} :
      files.nodeAt? (fileFor named) = some (.file (Utf8.encode text.toList)) →
      (Toml.read? text).bind ofDocument? = some settings →
      (∃ c ∈ settings.baseUrl.toList, isBlank c = false) → settings.timeoutSeconds ≠ some 0 →
      AreGiven files named settings

/-- Why a run has no settings. -/
inductive AreUnusable (files : FileTree) : Option RawText → Prop where
  /-- A file that is named has to be there. -/
  | missing {path} : files.nodeAt? path = none → AreUnusable files (some path)
  | directory {named} :
      files.nodeAt? (fileFor named) = some .directory → AreUnusable files named
  | notText {named content} :
      files.nodeAt? (fileFor named) = some (.file content) → ¬ (RawText.mk content).IsText →
      AreUnusable files named
  /-- The text is no document, or a value in it is of the wrong type. -/
  | notSettings {named text} :
      files.nodeAt? (fileFor named) = some (.file (Utf8.encode text.toList)) →
      (Toml.read? text).bind ofDocument? = none → AreUnusable files named
  | noBase {named text settings} :
      files.nodeAt? (fileFor named) = some (.file (Utf8.encode text.toList)) →
      (Toml.read? text).bind ofDocument? = some settings →
      (∀ c ∈ settings.baseUrl.toList, isBlank c = true) → AreUnusable files named
  | noTime {named text settings} :
      files.nodeAt? (fileFor named) = some (.file (Utf8.encode text.toList)) →
      (Toml.read? text).bind ofDocument? = some settings →
      (∃ c ∈ settings.baseUrl.toList, isBlank c = false) → settings.timeoutSeconds = some 0 →
      AreUnusable files named

theorem ofFile_encode (path : RawText) (text : String) :
    ofFile path (.content (Utf8.encode text.toList)) = ofToml text := by
  have read : Utf8.text? (Utf8.encode text.toList) = some text := RawText.text?_ofText text
  rw [ofFile, read]

theorem ofFile_of_not_isText (path : RawText) {content : List UInt8}
    (noText : ¬ (RawText.mk content).IsText) :
    ofFile path (.content content) = .error (.notFound path.shown) := by
  have unread : Utf8.text? content = none := by
    rw [Option.eq_none_iff_forall_ne_some]
    intro text read
    exact noText ⟨text, RawText.text?_eq_some_iff.mp read⟩
  rw [ofFile, unread]

/-- A document can only name directories that are texts. -/
theorem isText_directory_of_ofDocument? {document : Toml.Table} {settings : Settings}
    (read : ofDocument? document = some settings) : settings.directory.IsText := by
  simp only [ofDocument?, Option.bind_eq_bind, Option.bind_eq_some_iff, Option.pure_def,
    Option.some.injEq] at read
  obtain ⟨_, _, _, _, _, _, _, _, directory, found, rfl⟩ := read
  unfold Toml.Value.fieldOr at found
  split at found
  · cases found
  · cases found
    exact ⟨".", rfl⟩
  · obtain ⟨text, _, same⟩ := Option.map_eq_some_iff.mp found
    exact ⟨text, same.symm⟩

theorem AreGiven.isText_directory {files : FileTree} {named : Option RawText}
    {settings : Settings} (given : settings.AreGiven files named) :
    settings.directory.IsText := by
  cases given with
  | defaults => exact ⟨".", rfl⟩
  | file _ read =>
      obtain ⟨document, _, read⟩ := Option.bind_eq_some_iff.mp read
      exact isText_directory_of_ofDocument? read

theorem areUnusable_or_areGiven (files : FileTree) (named : Option RawText) :
    AreUnusable files named ∨ ∃ settings, AreGiven files named settings := by
  cases found : files.nodeAt? (fileFor named) with
  | none =>
      cases named with
      | none => exact .inr ⟨{}, .defaults found⟩
      | some path => exact .inl (.missing found)
  | some node =>
      cases node with
      | directory => exact .inl (.directory found)
      | file content =>
          by_cases isText : (RawText.mk content).IsText
          · obtain ⟨text, same⟩ := isText
            cases same
            cases read : (Toml.read? text).bind ofDocument? with
            | none => exact .inl (.notSettings found read)
            | some settings =>
                by_cases blank : ∀ c ∈ settings.baseUrl.toList, isBlank c = true
                · exact .inl (.noBase found read blank)
                have base : ∃ c ∈ settings.baseUrl.toList, isBlank c = false := by
                  simpa using blank
                by_cases time : settings.timeoutSeconds = some 0
                · exact .inl (.noTime found read base time)
                · exact .inr ⟨settings, .file found read base time⟩
          · exact .inl (.notText found isText)

section Written

variable {files : FileTree} {named : Option RawText} {text : String} {said : Settings}
  (found : files.nodeAt? (fileFor named) = some (.file (Utf8.encode text.toList)))
  (written : said.IsWrittenIn .borne text)
include found written

omit written in
theorem eq_of_nodeAt? {other : String}
    (again : files.nodeAt? (fileFor named) = some (.file (Utf8.encode other.toList))) :
    other = text := by
  have same := Node.file.inj (Option.some.inj (again.symm.trans found))
  exact String.toList_inj.mp (Utf8.encode_injective same)

theorem eq_of_areGiven {settings : Settings} (given : settings.AreGiven files named) :
    settings = said := by
  cases given with
  | defaults nothing => cases nothing.symm.trans found
  | file again read =>
      obtain rfl := eq_of_nodeAt? found again
      exact Option.some.inj (read.symm.trans written.read)

/-- Settings that a document says are of no use only if they violate a rule. -/
theorem areUnusable_iff_of_isWrittenIn :
    AreUnusable files named ↔
      (∀ c ∈ said.baseUrl.toList, isBlank c = true) ∨ said.timeoutSeconds = some 0 := by
  constructor
  · intro unusable
    cases unusable with
    | missing nothing => cases nothing.symm.trans found
    | directory isDirectory => cases isDirectory.symm.trans found
    | notText again noText =>
        cases again.symm.trans found
        exact absurd ⟨text, rfl⟩ noText
    | notSettings again unread =>
        obtain rfl := eq_of_nodeAt? found again
        cases unread.symm.trans written.read
    | noBase again read blank =>
        obtain rfl := eq_of_nodeAt? found again
        cases read.symm.trans written.read
        exact .inl blank
    | noTime again read _ zero =>
        obtain rfl := eq_of_nodeAt? found again
        cases read.symm.trans written.read
        exact .inr zero
  · intro violated
    by_cases blank : ∀ c ∈ said.baseUrl.toList, isBlank c = true
    · exact .noBase found written.read blank
    · exact .noTime found written.read (by simpa using blank) (violated.resolve_left blank)

end Written

end Settings

namespace Program.Terminal

variable {State : Type} {arguments : Arguments} {terminal : Terminal State}

theorem settings_eq (network : Network State) (arguments : Arguments)
    (terminal : Terminal State) :
    ((surroundings network).settings arguments terminal).1 =
      (Settings.ofLookup arguments.settingsFile (lookupOf (terminal.world.files.nodeAt?
        (Settings.fileFor arguments.settingsFile)))).map arguments.override := rfl

/-- A file that is there decides alone. -/
theorem ofLookup_of_nodeAt? {files : FileTree} {named : Option RawText} {node : Node}
    (found : files.nodeAt? (Settings.fileFor named) = some node) :
    Settings.ofLookup named (lookupOf (files.nodeAt? (Settings.fileFor named))) =
      Settings.ofFile (Settings.fileFor named) (lookupOf (some node)) := by
  rw [found]
  cases named <;> cases node <;> rfl

theorem ofLookup_of_text {files : FileTree} {named : Option RawText} {text : String}
    (found : files.nodeAt? (Settings.fileFor named) =
      some (.file (Utf8.encode text.toList))) :
    Settings.ofLookup named (lookupOf (files.nodeAt? (Settings.fileFor named))) =
      Settings.ofToml text :=
  (ofLookup_of_nodeAt? found).trans (Settings.ofFile_encode _ _)

theorem ofLookup_of_areGiven {files : FileTree} {named : Option RawText} {settings : Settings}
    (given : settings.AreGiven files named) :
    Settings.ofLookup named (lookupOf (files.nodeAt? (Settings.fileFor named))) =
      .ok settings := by
  cases given with
  | defaults nothing =>
      have same : files.nodeAt? (Settings.fileFor none) = none := nothing
      rw [same]
      rfl
  | file found read base time =>
      rw [ofLookup_of_text found]
      exact Settings.ofToml_eq_ok read base time

theorem exists_ofLookup_error {files : FileTree} {named : Option RawText}
    (unusable : Settings.AreUnusable files named) :
    ∃ error, Settings.ofLookup named (lookupOf (files.nodeAt? (Settings.fileFor named))) =
      .error error := by
  cases unusable with
  | @missing path nothing =>
      have same : files.nodeAt? (Settings.fileFor (some path)) = none := nothing
      rw [same]
      exact ⟨_, rfl⟩
  | directory found =>
      rw [ofLookup_of_nodeAt? found]
      exact ⟨_, rfl⟩
  | notText found noText =>
      rw [ofLookup_of_nodeAt? found]
      exact ⟨_, Settings.ofFile_of_not_isText _ noText⟩
  | notSettings found unread =>
      rw [ofLookup_of_text found, Settings.ofToml, unread]
      exact ⟨.unreadable, rfl⟩
  | noBase found read blank =>
      rw [ofLookup_of_text found]
      exact ⟨_, Settings.ofToml_eq_baseUrlNotBlank read blank⟩
  | noTime found read base zero =>
      rw [ofLookup_of_text found]
      exact ⟨_, Settings.ofToml_eq_timeoutPositive read base zero⟩

/-- The program has the settings that the file tree gives it, with what the command line says. -/
theorem settings_of_areGiven (network : Network State) {settings : Settings}
    (given : settings.AreGiven terminal.world.files arguments.settingsFile) :
    ((surroundings network).settings arguments terminal).1 =
      .ok (arguments.override settings) := by
  rw [settings_eq, ofLookup_of_areGiven given]
  rfl

theorem exists_settings_error (network : Network State)
    (unusable : Settings.AreUnusable terminal.world.files arguments.settingsFile) :
    ∃ error, ((surroundings network).settings arguments terminal).1 = .error error := by
  obtain ⟨error, failed⟩ := exists_ofLookup_error unusable
  refine ⟨error, ?_⟩
  rw [settings_eq, failed]
  rfl

end Program.Terminal

end CertificateAudit
