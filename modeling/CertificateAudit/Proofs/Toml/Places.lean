import CertificateAudit.Proofs.Toml.Outline

/-!
Tables as outlines: what stands in them at the end of a path of keys, and what another value under
one key changes (`Value.outline_put`).
-/

namespace CertificateAudit.Toml

/-! Entries of tables. -/

namespace Table

@[simp]
theorem lookup?_nil (key : String) : lookup? key [] = none := rfl

theorem lookup?_cons (key other : String) (value : Value) (table : Table) :
    lookup? key ((other, value) :: table) =
      if other = key then some value else lookup? key table := by
  by_cases same : other = key <;> simp [lookup?, same]

theorem lookup?_append (key : String) (table others : Table) :
    lookup? key (table ++ others) = (lookup? key table).or (lookup? key others) := by
  simp only [lookup?, List.find?_append]
  cases table.find? fun entry => entry.1 == key <;> rfl

theorem lookup?_replace (key other : String) (value : Value) (table : Table) :
    lookup? other (table.replace key value) =
      if other = key then (lookup? key table).map fun _ => value else lookup? other table := by
  induction table with
  | nil => simp [replace]
  | cons entry table inductionHypothesis =>
      obtain ⟨name, old⟩ := entry
      rw [replace, List.map_cons, ← replace]
      by_cases here : name = key
      · subst here
        by_cases same : other = name
        · simp [lookup?_cons, same]
        · simp [lookup?_cons, inductionHypothesis, same, Ne.symm same]
      · by_cases same : other = key
        · subst same
          simpa [lookup?_cons, here] using inductionHypothesis
        · rw [if_neg same] at inductionHypothesis ⊢
          simp [lookup?_cons, here, inductionHypothesis]

variable {key other : String} {table : Table} {value : Value}

theorem lookup?_append_new (missing : table.lookup? key = none) :
    lookup? key (table ++ [(key, value)]) = some value := by
  simp [lookup?_append, lookup?_cons, missing]

theorem lookup?_append_other (isOther : other ≠ key) :
    lookup? other (table ++ [(key, value)]) = lookup? other table := by
  simp [lookup?_append, lookup?_cons, Ne.symm isOther]

theorem lookup?_replace_found {old : Value} (found : table.lookup? key = some old) :
    lookup? key (table.replace key value) = some value := by
  simp [lookup?_replace, found]

theorem lookup?_replace_other (isOther : other ≠ key) :
    lookup? other (table.replace key value) = lookup? other table := by
  simp [lookup?_replace, isOther]

end Table

/-! Trees of tables as outlines. -/

namespace Value

/-- The entries of a value to which statements can add. -/
def entries? : Value → Option Table
  | .table .inline _ => none
  | .table _ entries => some entries
  | .tables items => items.getLast?
  | _ => none

def origin : Value → Origin
  | .table origin _ => origin
  | _ => .header

/-- The same value with other entries. -/
def withEntries (entries : Table) : Value → Value
  | .table origin _ => .table origin entries
  | .tables items => .tables (items.dropLast ++ [entries])
  | value => value

def thing (value : Value) : Thing :=
  if value.entries?.isNone then .value value
  else
    match value with
    | .table origin _ => .table origin
    | _ => .array

/-- The value at the end of a path. -/
def at? : (path : List String) → Value → Option Value
  | [], value => some value
  | key :: path, value => (value.entries?.bind (Table.lookup? key)).bind (at? path)

def outline (value : Value) : Outline := fun place => (value.at? place).map thing

section

variable {made : Origin} {path : List String} {key : String} {table changed : Table}
variable {value inner : Value}

@[simp]
theorem outline_nil (value : Value) : value.outline [] = some value.thing := rfl

theorem outline_cons (entries : value.entries? = some table) (key : String) (path : List String) :
    value.outline (key :: path) =
      (table.lookup? key).bind fun inner => inner.outline path := by
  simp only [outline, at?, entries, Option.bind_some, Option.map_bind]
  rfl

theorem thing_of_closed (closed : value.entries? = none) : value.thing = .value value := by
  simp [thing, closed]

theorem closed_of_thing (same : value.thing = .value inner) :
    value = inner ∧ value.entries? = none := by
  unfold thing at same
  split at same
  next closed => exact ⟨Thing.value.inj same, Option.isNone_iff_eq_none.mp closed⟩
  next => split at same <;> cases same

/-- Names lead only through values to which statements can add. -/
theorem exists_entries_of_admits (admits : value.thing.Admits made) :
    ∃ table, value.entries? = some table := by
  cases entries : value.entries? with
  | none =>
      rw [thing_of_closed entries] at admits
      exact admits.elim
  | some table => exact ⟨table, rfl⟩

theorem entries?_withEntries (entries : value.entries? = some table) (changed : Table) :
    (value.withEntries changed).entries? = some changed := by
  cases value with
  | table origin old => cases origin <;> first | rfl | cases entries
  | tables items => simp [withEntries, entries?]
  | _ => cases entries

theorem thing_withEntries (entries : value.entries? = some table) (changed : Table) :
    (value.withEntries changed).thing = value.thing := by
  have others := entries?_withEntries entries changed
  simp only [thing, entries, others]
  cases value <;> rfl

/-- A table in which nothing is yet. -/
theorem outline_new (fresh : made ≠ .inline) (place : List String) :
    (Value.table made []).outline place = if place = [] then some (.table made) else none := by
  have entries : (Value.table made []).entries? = some [] := by
    cases made <;> first | rfl | exact absurd rfl fresh
  cases place with
  | nil =>
      rw [outline_nil, if_pos rfl]
      simp [Value.thing, entries]
  | cons key place =>
      rw [outline_cons entries, if_neg (by simp)]
      rfl

theorem outline_found (entries : value.entries? = some table)
    (found : table.lookup? key = some inner) (place : List String) :
    value.outline (key :: place) = inner.outline place := by
  rw [outline_cons entries, found]
  rfl

theorem outline_key (entries : value.entries? = some table) (key : String) :
    value.outline [key] = (table.lookup? key).map Value.thing := by
  rw [outline_cons entries]
  cases table.lookup? key <;> rfl

theorem outline_missing (entries : value.entries? = some table)
    (missing : table.lookup? key = none) (place : List String) :
    value.outline (key :: place) = none := by
  rw [outline_cons entries, missing]
  rfl

theorem outline_closed (closed : value.entries? = none) {place : List String}
    (nonempty : place ≠ []) : value.outline place = none := by
  cases place with
  | nil => exact absurd rfl nonempty
  | cons => simp [Value.outline, Value.at?, closed]

theorem thing_eq_table_iff (entries : value.entries? = some table) (origin : Origin)
    (notHeader : origin ≠ .header) : value.thing = .table origin ↔ value.origin = origin := by
  cases value with
  | table itsOrigin old => simp [Value.thing, entries, Value.origin]
  | tables items => simp [Value.thing, entries, Value.origin, Ne.symm notHeader]
  | _ => cases entries

theorem exists_table_of_thing {origin : Origin} (same : value.thing = .table origin) :
    ∃ entries, value = .table origin entries ∧ value.entries? = some entries := by
  unfold Value.thing at same
  split at same
  next => cases same
  next open? =>
    cases value with
    | table itsOrigin entries =>
        cases same
        refine ⟨entries, rfl, ?_⟩
        cases origin <;> first | rfl | exact absurd rfl open?
    | _ => cases same

theorem exists_tables_of_thing (same : value.thing = .array) : ∃ items, value = .tables items := by
  unfold Value.thing at same
  split at same
  next => cases same
  next open? =>
    cases value with
    | table => cases same
    | tables items => exact ⟨items, rfl⟩
    | _ => exact absurd rfl open?

/-- Another value under one key, seen from the table. -/
theorem outline_withEntries (entries : value.entries? = some table)
    (here : changed.lookup? key = some inner)
    (elsewhere : ∀ other, other ≠ key → changed.lookup? other = table.lookup? other)
    (place : List String) :
    (value.withEntries changed).outline place =
      if [key] <+: place then inner.outline (place.drop 1) else value.outline place := by
  cases place with
  | nil => simp [thing_withEntries entries]
  | cons other place =>
      rw [outline_cons (entries?_withEntries entries changed)]
      by_cases isKey : other = key
      · subst isKey
        simp [here]
      · rw [elsewhere other isKey, ← outline_cons entries]
        simp [Ne.symm isKey]

theorem outline_put (entries : value.entries? = some table)
    (here : changed.lookup? key = some inner)
    (elsewhere : ∀ other, other ≠ key → changed.lookup? other = table.lookup? other)
    (behind : ∀ place, place ≠ [] → inner.outline place = value.outline (key :: place)) :
    (value.withEntries changed).outline = value.outline.put [key] inner.thing := by
  refine Outline.ext_key key (fun place => ?_) fun place apart => ?_
  · rw [outline_withEntries entries here elsewhere]
    by_cases last : place = []
    · simp [Outline.put, last]
    · simp [Outline.put, last, behind]
  · rw [outline_withEntries entries here elsewhere, if_neg apart, Outline.put_apart apart]

theorem outline_clear_put (entries : value.entries? = some table)
    (here : changed.lookup? key = some inner)
    (elsewhere : ∀ other, other ≠ key → changed.lookup? other = table.lookup? other)
    (behind : ∀ place, place ≠ [] → inner.outline place = none) :
    (value.withEntries changed).outline =
      (value.outline.clearBelow [key]).put [key] inner.thing := by
  refine Outline.ext_key key (fun place => ?_) fun place apart => ?_
  · rw [outline_withEntries entries here elsewhere]
    by_cases last : place = []
    · simp [Outline.put, last]
    · simp [Outline.put, Outline.clearBelow, last, behind]
  · rw [outline_withEntries entries here elsewhere, if_neg apart, Outline.put_apart apart,
      Outline.clearBelow_apart apart]

/-- One more table of an array, in which nothing is yet. -/
theorem outline_next (items : List Table) {place : List String} (nonempty : place ≠ []) :
    (Value.tables (items ++ [[]])).outline place = none := by
  have entries : (Value.tables (items ++ [[]])).entries? = some [] := List.getLast?_concat
  cases place with
  | nil => exact absurd rfl nonempty
  | cons key place => exact outline_missing entries rfl place

theorem thing_next (items : List Table) : (Value.tables (items ++ [[]])).thing = .array := by
  simp [Value.thing, Value.entries?]

end

end Value

/-- What stands at the places of a document. -/
def Table.outline (root : Table) : Outline :=
  (Value.table .header root).outline

theorem Table.outline_nil : Table.outline [] = .root :=
  funext fun place => Value.outline_new (by decide) place

end CertificateAudit.Toml
