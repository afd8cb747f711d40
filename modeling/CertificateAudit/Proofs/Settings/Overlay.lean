import CertificateAudit.Proofs.Toml.Writings
import CertificateAudit.Settings

/-!
Settings are the defaults, overlaid by what a document says: every valid document that says the
settings gives them, unless they violate a rule (`Settings.ofToml_of_isWrittenIn`). A reader bears
neither values that are nested too deep nor keys of too many parts nor floating point numbers that
are too large (`Settings.ofToml_beyond_limits`).
-/

namespace CertificateAudit

open CertificateAudit.Text CertificateAudit.Toml

/-- A text holds nothing but blanks exactly if each of its characters is one. -/
theorem isAllBlank_iff (text : String) :
    isAllBlank text = true ↔ ∀ c ∈ text.toList, isBlank c = true := by
  have start (characters : List Char) :
      (∀ c ∈ characters.dropWhile isBlank, isBlank c = true) ↔
        ∀ c ∈ characters, isBlank c = true := by
    induction characters with
    | nil => rfl
    | cons c characters inductionHypothesis =>
        by_cases blank : isBlank c = true
        · rw [List.dropWhile_cons_of_pos blank, inductionHypothesis, List.forall_mem_cons]
          exact (and_iff_right blank).symm
        · rw [List.dropWhile_cons_of_neg blank]
  rw [isAllBlank, trim, dropEndWhile, List.isEmpty_reverse, List.isEmpty_iff,
    List.dropWhile_eq_nil_iff, trimStart, ← start text.toList]
  simp only [List.mem_reverse]

namespace Toml

/-- What a document says about a key of a group: the value under the key, the key's value in a table
that is written between braces, or nothing, if only headers name the group and nothing names the
key. -/
inductive States (written : List (List String × Thing)) (group key : String) :
    Option Value → Prop where
  | under {value} :
      ([group], .array) ∉ written → ([group, key], .value value) ∈ written →
      States written group key (some value)
  | between {entries} :
      ([group], .value (.table .inline entries)) ∈ written →
      States written group key (Table.lookup? key entries)
  | leftOut :
      (∀ thing, ([group], thing) ∈ written → thing = .table .header) →
      (∀ writing ∈ written, ¬ [group, key] <+: writing.1) →
      States written group key none

section

variable {statements : List Statement} {root : Table} {group key : String} {said : Option Value}

theorem eq_of_prefix_single {place : List String} (above : place <+: [group])
    (nonempty : place ≠ []) : place = [group] := by
  have above : place <+: [] ++ [group] := above
  exact (List.prefix_concat_iff.mp above).resolve_right fun top => nonempty (List.prefix_nil.mp top)

theorem eq_of_prefix_pair {place : List String} (above : place <+: [group, key])
    (nonempty : place ≠ []) : place = [group] ∨ place = [group, key] := by
  have above : place <+: [group] ++ [key] := above
  rcases List.prefix_concat_iff.mp above with same | above
  · exact .inr same
  · exact .inl (eq_of_prefix_single above nonempty)

/-- A group that stands in the document as one table. -/
theorem group_of_table {inner : Value} (found : root.lookup? group = some inner)
    (table : ∃ origin, inner.thing = .table origin) (key : String) :
    ∃ origin entries, root.group group = .table origin entries ∧
      inner.outline [key] = (Table.lookup? key entries).map Value.thing := by
  obtain ⟨origin, thing⟩ := table
  obtain ⟨entries, rfl, opens⟩ := Value.exists_table_of_thing thing
  exact ⟨origin, entries, by rw [Table.group, found]; rfl, Value.outline_key opens key⟩

theorem outline_group (root : Table) (group : String) :
    root.outline [group] = (root.lookup? group).map Value.thing :=
  Value.outline_key rfl group

theorem outline_group_key (root : Table) (group key : String) :
    root.outline [group, key] = (root.lookup? group).bind fun inner => inner.outline [key] :=
  Value.outline_cons rfl group [key]

section

variable (builds : Outline.Builds [] .root statements root.outline)
include builds

theorem group_of_under {value : Value} (noArray : ([group], .array) ∉ writings [] statements)
    (written : ([group, key], .value value) ∈ writings [] statements) :
    ∃ origin entries,
      root.group group = .table origin entries ∧ Table.lookup? key entries = some value := by
  have stands : root.outline [group, key] = some (.value value) := by
    refine builds.value_written written fun other array above => ?_
    rcases eq_of_prefix_pair above (writings_ne_nil array) with rfl | same
    · exact absurd array noArray
    · exact same
  rw [outline_group_key] at stands
  obtain ⟨inner, found, stands⟩ := Option.bind_eq_some_iff.mp stands
  have table : ∃ origin, inner.thing = .table origin := by
    cases thing : inner.thing with
    | value =>
        obtain ⟨_, closed⟩ := Value.closed_of_thing thing
        rw [Value.outline_closed closed (by simp)] at stands
        cases stands
    | table origin => exact ⟨origin, rfl⟩
    | array =>
        have present : root.outline [group] = some .array := by
          rw [outline_group, found, Option.map_some, thing]
        rcases builds.cases_of_present present with impossible | written | ⟨made, impossible⟩
        · cases impossible
        · exact absurd written noArray
        · cases impossible
  obtain ⟨origin, entries, same, looked⟩ := group_of_table found table key
  rw [looked] at stands
  obtain ⟨value, entry, closed⟩ := Option.map_eq_some_iff.mp stands
  obtain ⟨rfl, _⟩ := Value.closed_of_thing closed
  exact ⟨origin, entries, same, entry⟩

theorem group_of_between {entries : Table}
    (written : ([group], .value (.table .inline entries)) ∈ writings [] statements) :
    root.group group = .table .inline entries := by
  have stands : root.outline [group] = some (.value (.table .inline entries)) :=
    builds.value_written written fun other array above =>
      eq_of_prefix_single above (writings_ne_nil array)
  rw [outline_group] at stands
  obtain ⟨inner, found, same⟩ := Option.map_eq_some_iff.mp stands
  obtain ⟨rfl, _⟩ := Value.closed_of_thing same
  rw [Table.group, found]
  rfl

theorem group_of_leftOut
    (headers : ∀ thing, ([group], thing) ∈ writings [] statements → thing = .table .header)
    (apart : ∀ writing ∈ writings [] statements, ¬ [group, key] <+: writing.1) :
    ∃ origin entries,
      root.group group = .table origin entries ∧ Table.lookup? key entries = none := by
  have absent : root.outline [group, key] = none := builds.absent rfl apart
  rw [outline_group_key] at absent
  cases found : root.lookup? group with
  | none => exact ⟨.header, [], by rw [Table.group, found]; rfl, rfl⟩
  | some inner =>
      have present : root.outline [group] = some inner.thing := by
        rw [outline_group, found, Option.map_some]
      have table : ∃ origin, inner.thing = .table origin := by
        rcases builds.cases_of_present present with impossible | written | made
        · cases impossible
        · exact ⟨.header, headers _ written⟩
        · exact made
      obtain ⟨origin, entries, same, looked⟩ := group_of_table found table key
      rw [found, Option.bind_some, looked] at absent
      exact ⟨origin, entries, same, Option.map_eq_none_iff.mp absent⟩

/-- What a document says about a key stands in the group of the key, and the group is one table. -/
theorem group_states (stated : States (writings [] statements) group key said) :
    ∃ origin entries,
      root.group group = .table origin entries ∧ Table.lookup? key entries = said := by
  cases stated with
  | under noArray written => exact group_of_under builds noArray written
  | @between entries written => exact ⟨.inline, entries, group_of_between builds written, rfl⟩
  | leftOut headers apart => exact group_of_leftOut builds headers apart

end

theorem Value.fieldOr_map {α β : Type} (f : α → β) (read : Value → Option α) (default : α)
    (position : Nat) (key : String) (group : Value) :
    group.fieldOr (fun value => (read value).map f) (f default) position key =
      (group.fieldOr read default position key).map f := by
  unfold Value.fieldOr
  split <;> rfl

variable {α : Type} {read : Value → Option α} {spell : α → Value} {value default : α}

/-- A document says the value of a setting, or it leaves out one that has its default. -/
def Gives (written : List (List String × Thing)) (group key : String) (spell : α → Value)
    (default value : α) : Prop :=
  States written group key (some (spell value)) ∨ States written group key none ∧ value = default

theorem fieldOr_of_gives (builds : Outline.Builds [] .root statements root.outline)
    (gives : Gives (writings [] statements) group key spell default value)
    (reads : read (spell value) = some value) (position : Nat) :
    (root.group group).fieldOr read default position key = some value := by
  rcases gives with stated | ⟨stated, rfl⟩
  · obtain ⟨origin, entries, same, found⟩ := group_states builds stated
    simp only [Value.fieldOr, same, Value.field, found, reads]
  · obtain ⟨origin, entries, same, found⟩ := group_states builds stated
    simp only [Value.fieldOr, same, Value.field, found]

theorem optionalField_of_states {value : Option α}
    (builds : Outline.Builds [] .root statements root.outline)
    (stated : States (writings [] statements) group key (value.map spell))
    (reads : ∀ a ∈ value, read (spell a) = some a) (position : Nat) :
    (root.group group).optionalField read position key = some value := by
  obtain ⟨origin, entries, same, found⟩ := group_states builds stated
  cases value with
  | none => simp [Value.optionalField, same, Value.field, found, Value.isList]
  | some a => simp [Value.optionalField, same, Value.field, found, reads a rfl]

end

end Toml

namespace Settings

/-- The settings are the defaults, overlaid by what a document says. -/
structure IsSaidBy (settings : Settings) (written : List (List String × Thing)) : Prop where
  baseUrl : Gives written "ct" "base_url" .text ({} : Settings).baseUrl settings.baseUrl
  userAgent : Gives written "ct" "user_agent" .text ({} : Settings).userAgent settings.userAgent
  timeoutSeconds :
    States written "http" "timeout_secs" (settings.timeoutSeconds.map fun n : Nat => .integer n)
  cacheIssuers :
    Gives written "issuer" "cache" .boolean ({} : Settings).cacheIssuers settings.cacheIssuers
  directory : ∃ path, settings.directory = RawText.ofText path ∧
    Gives written "output" "directory" .text "." path

section

variable {settings : Settings} {statements : List Statement}

theorem ofDocument?_of_said {root : Table}
    (builds : Outline.Builds [] .root statements root.outline)
    (said : settings.IsSaidBy (writings [] statements)) : ofDocument? root = some settings := by
  have natural : ∀ n ∈ settings.timeoutSeconds, Value.natural? (.integer n) = some n := by
    intro n _
    simp [Value.natural?]
  have timeout := optionalField_of_states builds said.timeoutSeconds natural 0
  refine Option.bind_eq_some_iff.mpr ⟨_, fieldOr_of_gives builds said.baseUrl rfl 0, ?_⟩
  refine Option.bind_eq_some_iff.mpr ⟨_, fieldOr_of_gives builds said.userAgent rfl 1, ?_⟩
  refine Option.bind_eq_some_iff.mpr ⟨_, timeout, ?_⟩
  refine Option.bind_eq_some_iff.mpr ⟨_, fieldOr_of_gives builds said.cacheIssuers rfl 0, ?_⟩
  obtain ⟨path, isPath, gives⟩ := said.directory
  have directory : (root.group "output").fieldOr Value.path? ({} : Settings).directory 0
      "directory" = some settings.directory := by
    rw [isPath]
    exact (Value.fieldOr_map RawText.ofText Value.text? "." 0 "directory" _).trans
      (congrArg _ (fieldOr_of_gives builds gives rfl 0))
  exact Option.bind_eq_some_iff.mpr ⟨_, directory, rfl⟩

/-- A text is a valid document, within limits, that says the settings. -/
def IsWrittenIn (limits : Limits) (settings : Settings) (text : String) : Prop :=
  ∃ statements, SpellsDocument limits statements text.toList ∧ IsValid statements ∧
    settings.IsSaidBy (writings [] statements)

theorem IsWrittenIn.read {text : String} (written : settings.IsWrittenIn .borne text) :
    (read? text).bind ofDocument? = some settings := by
  obtain ⟨statements, spelled, ⟨final, builds⟩, said⟩ := written
  obtain ⟨root, read, rfl⟩ := (tables?_outline_iff spelled.isClosed).mpr builds
  rw [read?_of_spells spelled, read]
  exact ofDocument?_of_said builds said

theorem isAllBlank_eq_false {text : String} (visible : ∃ c ∈ text.toList, isBlank c = false) :
    isAllBlank text = false := by
  rw [← Bool.not_eq_true, isAllBlank_iff]
  obtain ⟨c, membership, visible⟩ := visible
  exact fun blank => Bool.noConfusion (visible.symm.trans (blank c membership))

/-- What a document gives are settings if they violate no rule. -/
theorem ofToml_eq_ok {text : String} (read : (read? text).bind ofDocument? = some settings)
    (base : ∃ c ∈ settings.baseUrl.toList, isBlank c = false)
    (time : settings.timeoutSeconds ≠ some 0) : ofToml text = .ok settings := by
  simp only [ofToml, read, violated?, isAllBlank_eq_false base, time, Bool.false_eq_true, if_false]

theorem ofToml_eq_baseUrlNotBlank {text : String}
    (read : (read? text).bind ofDocument? = some settings)
    (blank : ∀ c ∈ settings.baseUrl.toList, isBlank c = true) :
    ofToml text = .error (.violates .baseUrlNotBlank) := by
  simp only [ofToml, read, violated?, (isAllBlank_iff _).mpr blank, if_true]

theorem ofToml_eq_timeoutPositive {text : String}
    (read : (read? text).bind ofDocument? = some settings)
    (base : ∃ c ∈ settings.baseUrl.toList, isBlank c = false)
    (zero : settings.timeoutSeconds = some 0) :
    ofToml text = .error (.violates .timeoutPositive) := by
  simp only [ofToml, read, violated?, isAllBlank_eq_false base, zero, Bool.false_eq_true, if_false,
    if_true]

/-- A document that says the settings gives them, whatever else it says and however it is written,
unless they violate a rule. -/
theorem ofToml_of_isWrittenIn {text : String} (written : settings.IsWrittenIn .borne text) :
    ((∃ c ∈ settings.baseUrl.toList, isBlank c = false) → settings.timeoutSeconds ≠ some 0 →
      ofToml text = .ok settings) ∧
    ((∀ c ∈ settings.baseUrl.toList, isBlank c = true) →
      ofToml text = .error (.violates .baseUrlNotBlank)) ∧
    ((∃ c ∈ settings.baseUrl.toList, isBlank c = false) → settings.timeoutSeconds = some 0 →
      ofToml text = .error (.violates .timeoutPositive)) :=
  ⟨ofToml_eq_ok written.read, ofToml_eq_baseUrlNotBlank written.read,
    ofToml_eq_timeoutPositive written.read⟩

/-- A document with one key in one group. -/
theorem ofToml_of_isWrittenIn_local :
    ({ baseUrl := "http://127.0.0.1:9000" } : Settings).IsWrittenIn .borne
        "[ct]\nbase_url = 'http://127.0.0.1:9000'" ∧
      ofToml "[ct]\nbase_url = 'http://127.0.0.1:9000'" =
        .ok { baseUrl := "http://127.0.0.1:9000" } := by
  have blank : IsSpaces [] := List.forall_mem_nil _
  have space : IsSpaces [' '] := List.forall_mem_singleton.mpr rfl
  have header : SpellsKey .borne [] "ct" "ct".toList :=
    ⟨.last blank (.bare (by decide) (List.all_eq_true.mp (by decide))) blank, by decide⟩
  have name : SpellsKey .borne [] "base_url" "base_url ".toList :=
    ⟨.last blank (.bare (by decide) (List.all_eq_true.mp (by decide))) space, by decide⟩
  have address : IsLiteral "http://127.0.0.1:9000".toList := by
    intro c membership
    have plain : "http://127.0.0.1:9000".toList.all (fun c => isPlain c && c != '\'') = true := by
      decide
    simpa using List.all_eq_true.mp plain c membership
  have value : Spells .borne 79 (.text "http://127.0.0.1:9000") "'http://127.0.0.1:9000'".toList :=
    .inl (.text (.literal address))
  have document : SpellsDocument .borne
      [.table [] "ct", .entry ⟨[], "base_url", .text "http://127.0.0.1:9000"⟩]
      "[ct]\nbase_url = 'http://127.0.0.1:9000'".toList :=
    .plain (.next (.statement blank (.table header) blank .absent) (.inl rfl)
      (.last (.statement blank (.entry (.intro name space value)) blank .absent)))
  have valid : IsValid
      [.table [] "ct", .entry ⟨[], "base_url", .text "http://127.0.0.1:9000"⟩] := by
    refine ⟨_, .next ⟨Outline.leads_nil _, .inl (by simp [Outline.root])⟩
      (.next ⟨Outline.leads_nil _, .inl rfl, ?_⟩ .done)⟩
    simp [Outline.after, Outline.put, Outline.fill, Outline.root, Statement.headerAfter]
  have written : ({ baseUrl := "http://127.0.0.1:9000" } : Settings).IsWrittenIn .borne
      "[ct]\nbase_url = 'http://127.0.0.1:9000'" := by
    refine ⟨_, document, valid, .inl (.under ?_ ?_), .inr ⟨.leftOut ?_ ?_, rfl⟩, .leftOut ?_ ?_,
      .inr ⟨.leftOut ?_ ?_, rfl⟩, ⟨".", rfl, .inr ⟨.leftOut ?_ ?_, rfl⟩⟩⟩ <;>
    simp [writings, Statement.place, Statement.thing, Statement.headerAfter]
  exact ⟨written, (ofToml_of_isWrittenIn written).1 ⟨'h', by decide, by decide⟩ (by decide)⟩

/-! Documents beyond the limits. -/

theorem fits_zero : Fits 0 :=
  ⟨by decide, by decide⟩

/-- A number in so many lists. -/
def nested : (depth : Nat) → Value
  | 0 => .integer 0
  | depth + 1 => .array [nested depth]

def nestedText : (depth : Nat) → List Char
  | 0 => ['0']
  | depth + 1 => '[' :: (nestedText depth ++ [']'])

theorem spells_nested (limits : Limits) (depth : Nat) :
    Spells limits depth (nested depth) (nestedText depth) := by
  induction depth with
  | zero => exact .integer (.decimal .absent .zero) fits_zero
  | succ depth inductionHypothesis =>
      refine .inr (.list ?_)
      rw [← List.append_nil (nestedText depth)]
      exact .last .done inductionHypothesis .done

/-- A dotted key with so many parts in front of the last. -/
def dottedText : (more : Nat) → List Char
  | 0 => ['x']
  | more + 1 => 'x' :: '.' :: dottedText more

theorem spellsParts_dottedText (more : Nat) :
    SpellsParts (List.replicate more "x" ++ ["x"]) (dottedText more) := by
  have blank : IsSpaces [] := List.forall_mem_nil _
  have part : SpellsPart "x" ['x'] := .bare (by decide) (List.forall_mem_singleton.mpr rfl)
  induction more with
  | zero => exact .last blank part blank
  | succ more inductionHypothesis => exact .next blank part blank inductionHypothesis

/-- A document whose only key is in no group says that the settings are the defaults. -/
theorem isWrittenIn_of_entry {limits : Limits} {path : List String} {key : String} {value : Value}
    {text : String}
    (spelled : SpellsEntry limits (Spells limits limits.depth) ⟨path, key, value⟩ text.toList)
    (unknown : ∀ group ∈ ["ct", "http", "issuer", "output"], ¬ [group] <+: path ++ [key]) :
    ({} : Settings).IsWrittenIn limits text := by
  have blank : IsSpaces [] := List.forall_mem_nil _
  have document : SpellsDocument limits [.entry ⟨path, key, value⟩] text.toList := by
    have line := SpellsLine.statement blank (.entry spelled) blank .absent
    rw [List.nil_append, List.append_nil, List.append_nil] at line
    exact .plain (.last line)
  have nothing {place : List String} (below : place ≠ []) : Outline.root place = none :=
    if_neg below
  have valid : IsValid [.entry ⟨path, key, value⟩] := by
    refine ⟨_, .next ⟨?_, ?_, nothing (by simp)⟩ .done⟩
    · intro part _ below thing present
      exact absurd present (by simp [Outline.below, nothing below])
    · by_cases top : path = []
      · exact .inl top
      · exact .inr (.inl (nothing top))
  have leftOut (group name : String) (known : group ∈ ["ct", "http", "issuer", "output"]) :
      States (writings [] [.entry ⟨path, key, value⟩]) group name none := by
    refine .leftOut (fun thing written => ?_) (List.forall_mem_singleton.mpr fun below => ?_)
    · obtain ⟨same, _⟩ := Prod.mk.inj (List.mem_singleton.mp written)
      exact absurd ⟨[], by simpa [Statement.place] using same⟩ (unknown group known)
    · exact unknown group known ((List.prefix_append [group] [name]).trans below)
  refine ⟨_, document, valid, ?_, ?_, ?_, ?_, ?_⟩
  · exact .inr ⟨leftOut "ct" "base_url" (by simp), rfl⟩
  · exact .inr ⟨leftOut "ct" "user_agent" (by simp), rfl⟩
  · exact leftOut "http" "timeout_secs" (by simp)
  · exact .inr ⟨leftOut "issuer" "cache" (by simp), rfl⟩
  · exact ⟨".", rfl, .inr ⟨leftOut "output" "directory" (by simp), rfl⟩⟩

/-- The defaults are not given where values are nested too deep, a key has too many parts, or a
floating point number is too large, though no setting depends on any of them. -/
theorem ofToml_beyond_limits :
    ((∃ c ∈ ({} : Settings).baseUrl.toList, isBlank c = false) ∧
      ({} : Settings).timeoutSeconds ≠ some 0) ∧
    (({} : Settings).IsWrittenIn ⟨80, false⟩ (String.ofList ('x' :: '=' :: nestedText 80)) ∧
      ofToml (String.ofList ('x' :: '=' :: nestedText 80)) = .error .unreadable) ∧
    (({} : Settings).IsWrittenIn ⟨80, false⟩ (String.ofList (dottedText 79 ++ ['=', '0'])) ∧
      ofToml (String.ofList (dottedText 79 ++ ['=', '0'])) = .error .unreadable) ∧
    (({} : Settings).IsWrittenIn ⟨79, true⟩ "x=1e999" ∧
      ofToml "x=1e999" = .error .unreadable) := by
  have blank : IsSpaces [] := List.forall_mem_nil _
  have name (limits : Limits) (positive : 0 < limits.depth) : SpellsKey limits [] "x" ['x'] :=
    ⟨spellsParts_dottedText 0, positive⟩
  refine ⟨⟨⟨'h', by decide, by decide⟩, by decide⟩, ⟨?_, ?_⟩, ⟨?_, ?_⟩, ?_, by decide +kernel⟩
  · have spelled : SpellsEntry ⟨80, false⟩ (Spells ⟨80, false⟩ 80) ⟨[], "x", nested 80⟩
        ('x' :: '=' :: nestedText 80) :=
      .intro (name _ (by decide)) blank (spells_nested _ 80)
    rw [← String.toList_ofList (l := 'x' :: '=' :: nestedText 80)] at spelled
    exact isWrittenIn_of_entry spelled (by decide)
  · rw [ofToml, read?, String.toList_ofList]
    decide +kernel
  · have spelled : SpellsEntry ⟨80, false⟩ (Spells ⟨80, false⟩ 80)
        ⟨List.replicate 79 "x", "x", .integer 0⟩ (dottedText 79 ++ ['=', '0']) :=
      .intro ⟨spellsParts_dottedText 79, by decide⟩ blank
        (.inl (.integer (.decimal .absent .zero) fits_zero))
    rw [← String.toList_ofList (l := dottedText 79 ++ ['=', '0'])] at spelled
    exact isWrittenIn_of_entry spelled (by decide)
  · rw [ofToml, read?, String.toList_ofList]
    decide +kernel
  · have large : IsFloat ⟨79, true⟩ ['1', 'e', '9', '9', '9'] :=
      .number .absent (.positive (.one (by decide)) (by decide))
        (.exponent (.intro (.inl rfl) .absent
          (.next (by decide) (.next (by decide) (.one (by decide)))))) (.inl rfl)
    have spelled : SpellsEntry ⟨79, true⟩ (Spells ⟨79, true⟩ 79) ⟨[], "x", .float⟩
        "x=1e999".toList :=
      .intro (name _ (by decide)) blank (.inl (.float large))
    exact isWrittenIn_of_entry spelled (by decide)

end

end Settings

end CertificateAudit
