import CertificateAudit.Proofs.Toml.Places

/-!
Changes of tables as outlines have them: when a statement finds its place, and what stands where
behind it. A change at the end of a path comes to the same change below a path that is filled first
(`Acts.changeAt`).
-/

namespace CertificateAudit.Toml

/-! Changes at the end of a path. -/

section

variable {made origin : Origin} {path : List String} {key : String} {table inner : Table}
variable {value : Value} {change : Origin → Table → Option Table}

theorem changeAt_missing (missing : table.lookup? key = none) :
    Table.changeAt made change (key :: path) origin table =
      (Table.changeAt made change path made []).map
        fun changed => table ++ [(key, .table made changed)] := by
  simp only [Table.changeAt, missing]
  cases Table.changeAt made change path made [] <;> rfl

theorem changeAt_found (found : table.lookup? key = some value)
    (entries : value.entries? = some inner) (admits : value.thing.Admits made) :
    Table.changeAt made change (key :: path) origin table =
      (Table.changeAt made change path value.origin inner).map
        fun changed => table.replace key (value.withEntries changed) := by
  cases value with
  | table itsOrigin old =>
      have open? : ¬ (itsOrigin = .inline ∨ made = .dotted ∧ itsOrigin = .header) := by
        rintro (rfl | ⟨dotted, rfl⟩)
        · cases entries
        · exact admits dotted rfl
      obtain rfl : old = inner := by
        cases itsOrigin <;> first | exact Option.some.inj entries | cases entries
      simp only [Table.changeAt, found, if_neg open?, Value.origin]
      cases Table.changeAt made change path itsOrigin old <;> rfl
  | tables items =>
      have last : items.getLast? = some inner := entries
      simp only [Table.changeAt, found, last, Option.bind_eq_bind, Option.bind_some, Value.origin]
      cases Table.changeAt made change path .header inner <;> rfl
  | _ => cases entries

theorem changeAt_refused (found : table.lookup? key = some value)
    (refused : ¬ value.thing.Admits made) :
    Table.changeAt made change (key :: path) origin table = none := by
  cases value with
  | table itsOrigin old =>
      have closed : itsOrigin = .inline ∨ made = .dotted ∧ itsOrigin = .header := by
        refine Decidable.byContradiction fun open? => refused ?_
        cases itsOrigin with
        | inline => exact absurd (.inl rfl) open?
        | _ => exact fun dotted same => open? (.inr ⟨dotted, same⟩)
      simp only [Table.changeAt, found, if_pos closed]
  | tables items =>
      have empty : items.getLast? = none := by
        cases last : items.getLast? with
        | none => rfl
        | some inner =>
            refine absurd ?_ refused
            simp [Value.thing, Value.entries?, last, Thing.Admits]
      simp only [Table.changeAt, found, empty, Option.bind_eq_bind, Option.bind_none]
  | _ => simp only [Table.changeAt, found]

end

/-- What it takes to make a change in a table, and what it comes to, as outlines have it. -/
structure Acts (change : Origin → Table → Option Table) (allowed : Outline → Prop)
    (effect : Outline → Outline) : Prop where
  isSome_iff {value : Value} {table : Table} :
    value.entries? = some table → value.outline.IsSettled →
      ((change value.origin table).isSome ↔ allowed value.outline)
  outline_eq {value : Value} {table changed : Table} :
    value.entries? = some table → change value.origin table = some changed →
      (value.withEntries changed).outline = effect value.outline

namespace Acts

variable {made : Origin} {change : Origin → Table → Option Table} {allowed : Outline → Prop}
variable {effect : Outline → Outline} {path : List String} {key : String} {table changed : Table}
variable {value inner innerChanged : Value}

theorem fill_missing (entries : value.entries? = some table) (missing : table.lookup? key = none)
    (fresh : made ≠ .inline) (place : List String) :
    value.outline.fill made (key :: path) (key :: place) =
      (Value.table made []).outline.fill made path place := by
  simp only [Outline.fill, Value.outline_missing entries missing, Value.outline_new fresh,
    List.cons_prefix_cons]
  cases place <;> simp

theorem leads_missing (entries : value.entries? = some table) (missing : table.lookup? key = none)
    (fresh : made ≠ .inline) :
    value.outline.Leads made (key :: path) ↔ (Value.table made []).outline.Leads made path := by
  constructor
  · intro _ part _ nonempty thing membership
    rw [Value.outline_new fresh, if_neg nonempty] at membership
    cases membership
  · intro _ part isPrefix nonempty thing membership
    cases part with
    | nil => exact absurd rfl nonempty
    | cons name part =>
        obtain ⟨rfl, _⟩ := List.cons_prefix_cons.mp isPrefix
        rw [Value.outline_missing entries missing] at membership
        cases membership

theorem below_fill_cons (filled : ∀ place, value.outline.fill made (key :: path) (key :: place) =
      inner.outline.fill made path place) :
    (value.outline.fill made (key :: path)).below (key :: path) =
      (inner.outline.fill made path).below path :=
  funext fun place => filled (path ++ place)

/-- A change somewhere below one key of a table, seen from the table. -/
theorem outline_eq_graft (entries : value.entries? = some table)
    (filled : ∀ place, value.outline.fill made (key :: path) (key :: place) =
      inner.outline.fill made path place)
    (here : changed.lookup? key = some innerChanged)
    (elsewhere : ∀ other, other ≠ key → changed.lookup? other = table.lookup? other)
    (same : innerChanged.outline = (inner.outline.fill made path).graft path effect) :
    (value.withEntries changed).outline =
      (value.outline.fill made (key :: path)).graft (key :: path) effect := by
  funext place
  rw [Value.outline_withEntries entries here elsewhere, same]
  cases place with
  | nil => simp [Outline.graft, Outline.fill]
  | cons other place =>
      by_cases isKey : other = key
      · subst isKey
        simp [Outline.graft, below_fill_cons filled, filled]
      · simp [Outline.graft, Outline.fill, isKey, Ne.symm isKey]

theorem changeAt_nil (acts : Acts change allowed effect) :
    Acts (Table.changeAt made change [])
      (fun outline => outline.Leads made [] ∧ allowed ((outline.fill made []).below []))
      (fun outline => (outline.fill made []).graft [] effect) := by
  have whole (value : Value) : value.outline.fill made [] = value.outline :=
    Outline.fill_nil (by simp)
  constructor
  · intro value table entries settled
    rw [whole]
    exact (acts.isSome_iff entries settled).trans (and_iff_right (Outline.leads_nil _)).symm
  · intro value table changed entries done
    rw [acts.outline_eq entries done, whole]
    funext place
    simp only [Outline.graft, List.nil_prefix, if_true]
    rfl

theorem changeAt_cons (fresh : made ≠ .inline)
    (acts : Acts (Table.changeAt made change path)
      (fun outline => outline.Leads made path ∧ allowed ((outline.fill made path).below path))
      (fun outline => (outline.fill made path).graft path effect)) (key : String) :
    Acts (Table.changeAt made change (key :: path))
      (fun outline =>
        outline.Leads made (key :: path) ∧
          allowed ((outline.fill made (key :: path)).below (key :: path)))
      (fun outline => (outline.fill made (key :: path)).graft (key :: path) effect) := by
  have newEntries : (Value.table made []).entries? = some [] := by
    cases made <;> first | rfl | exact absurd rfl fresh
  constructor
  · intro value table entries settled
    cases found : table.lookup? key with
    | none =>
        have newSettled : (Value.table made []).outline.IsSettled := by
          intro place
          rw [Value.outline_new fresh]
          split <;> simp
        rw [changeAt_missing found, Option.isSome_map, leads_missing entries found fresh,
          below_fill_cons (fill_missing entries found fresh)]
        exact acts.isSome_iff newEntries newSettled
    | some inner =>
        have same := Value.outline_found entries found
        by_cases admits : inner.thing.Admits made
        · obtain ⟨others, innerEntries⟩ := Value.exists_entries_of_admits admits
          have innerSettled : inner.outline.IsSettled :=
            fun place => same place ▸ settled (key :: place)
          rw [changeAt_found found innerEntries admits, Option.isSome_map,
            acts.isSome_iff innerEntries innerSettled, Outline.leads_cons same,
            below_fill_cons (Outline.fill_cons_same same)]
          simp [admits]
        · rw [changeAt_refused found admits, Outline.leads_cons same]
          simp [admits]
  · intro value table changed entries done
    cases found : table.lookup? key with
    | none =>
        rw [changeAt_missing found] at done
        obtain ⟨new, newDone, rfl⟩ := Option.map_eq_some_iff.mp done
        have newOutline : (Value.table made new).outline = _ := acts.outline_eq newEntries newDone
        exact outline_eq_graft entries (fill_missing entries found fresh)
          (Table.lookup?_append_new found) (fun _ => Table.lookup?_append_other) newOutline
    | some inner =>
        have admits : inner.thing.Admits made := Classical.byContradiction fun refused => by
          rw [changeAt_refused found refused] at done
          cases done
        obtain ⟨others, innerEntries⟩ := Value.exists_entries_of_admits admits
        rw [changeAt_found found innerEntries admits] at done
        obtain ⟨new, newDone, rfl⟩ := Option.map_eq_some_iff.mp done
        exact outline_eq_graft entries (Outline.fill_cons_same (Value.outline_found entries found))
          (Table.lookup?_replace_found found) (fun _ => Table.lookup?_replace_other)
          (acts.outline_eq innerEntries newDone)

/-- A change at the end of a path comes to the same change below a path that is filled first. -/
theorem changeAt (acts : Acts change allowed effect) (fresh : made ≠ .inline)
    (path : List String) :
    Acts (Table.changeAt made change path)
      (fun outline => outline.Leads made path ∧ allowed ((outline.fill made path).below path))
      (fun outline => (outline.fill made path).graft path effect) := by
  induction path with
  | nil => exact acts.changeAt_nil
  | cons key path inductionHypothesis => exact changeAt_cons fresh inductionHypothesis key

/-! The changes that statements make. -/

/-- A new value under a key that is free. -/
theorem insert? (closed : value.entries? = none) (path : List String) (key : String) :
    Acts
      (fun origin inner =>
        if path.isEmpty || origin == .dotted then Table.insert? key value inner else none)
      (fun outline => (path = [] ∨ outline [] = some (.table .dotted)) ∧ outline [key] = none)
      (fun outline => outline.put [key] (.value value)) := by
  constructor
  · intro group table entries _
    have free : (Table.insert? key value table).isSome ↔ group.outline [key] = none := by
      rw [Value.outline_key entries]
      unfold Table.insert?
      cases table.lookup? key <;> simp
    have open? : (path.isEmpty || group.origin == .dotted) = true ↔
        path = [] ∨ group.outline [] = some (.table .dotted) := by
      simp [Value.thing_eq_table_iff entries .dotted (by decide)]
    rw [← free, ← open?]
    split <;> simp [*]
  · intro group table changed entries done
    have inserted : Table.insert? key value table = some changed := by
      split at done
      · exact done
      · cases done
    cases found : table.lookup? key with
    | some old => simp [Table.insert?, found] at inserted
    | none =>
        obtain rfl : table ++ [(key, value)] = changed := by
          simpa [Table.insert?, found] using inserted
        rw [← Value.thing_of_closed closed]
        refine Value.outline_put entries (Table.lookup?_append_new found)
          (fun _ => Table.lookup?_append_other) fun place nonempty => ?_
        rw [Value.outline_closed closed nonempty, Value.outline_missing entries found]

theorem openTable_refused (found : table.lookup? key = some inner)
    (refused : inner.thing ≠ .table .implied) : Table.openTable [] key table = none := by
  simp only [Table.openTable, Table.changeAt, found]
  split
  next same => cases same
  next same =>
    obtain rfl := Option.some.inj same
    exact absurd rfl refused
  next => rfl

theorem openTable_implied {old : Table} (found : table.lookup? key = some (.table .implied old)) :
    Table.openTable [] key table = some (table.replace key (.table .header old)) := by
  simp only [Table.openTable, Table.changeAt, found]

/-- The table behind a header, which may be known from longer headers. -/
theorem openTable (key : String) :
    Acts (fun _ parent => Table.openTable [] key parent)
      (fun outline => outline [key] = none ∨ outline [key] = some (.table .implied))
      (fun outline => outline.put [key] (.table .header)) := by
  constructor
  · intro group table entries _
    rw [Value.outline_key entries]
    cases found : table.lookup? key with
    | none => simp [Table.openTable, Table.changeAt, found]
    | some old =>
        by_cases implied : old.thing = .table .implied
        · obtain ⟨entries, rfl, _⟩ := Value.exists_table_of_thing implied
          simp [openTable_implied found, implied]
        · simp [openTable_refused found implied, implied]
  · intro group table changed entries done
    cases found : table.lookup? key with
    | none =>
        obtain rfl : table ++ [(key, .table .header [])] = changed := by
          simpa [Table.openTable, Table.changeAt, found] using done
        refine Value.outline_put entries (Table.lookup?_append_new found)
          (fun _ => Table.lookup?_append_other) fun place nonempty => ?_
        rw [Value.outline_new (by decide), if_neg nonempty, Value.outline_missing entries found]
    | some old =>
        by_cases implied : old.thing = .table .implied
        · obtain ⟨old, rfl, _⟩ := Value.exists_table_of_thing implied
          rw [openTable_implied found] at done
          obtain rfl := Option.some.inj done
          refine Value.outline_put entries (Table.lookup?_replace_found found)
            (fun _ => Table.lookup?_replace_other) fun place nonempty => ?_
          rw [Value.outline_found entries found]
          cases place with
          | nil => exact absurd rfl nonempty
          | cons => rfl
        · rw [openTable_refused found implied] at done
          cases done

theorem openNext_refused (found : table.lookup? key = some inner)
    (refused : ∀ items, inner ≠ .tables items) : Table.openNext [] key table = none := by
  simp only [Table.openNext, Table.changeAt, found]

theorem openNext_array {items : List Table} (found : table.lookup? key = some (.tables items)) :
    Table.openNext [] key table = some (table.replace key (.tables (items ++ [[]]))) := by
  simp only [Table.openNext, Table.changeAt, found]

/-- One more table of an array, behind which nothing is left of the one before. -/
theorem openNext (key : String) :
    Acts (fun _ parent => Table.openNext [] key parent)
      (fun outline => outline [key] = none ∨ outline [key] = some .array)
      (fun outline => (outline.clearBelow [key]).put [key] .array) := by
  constructor
  · intro group table entries settled
    have known := Value.outline_key entries key
    rw [known]
    cases found : table.lookup? key with
    | none => simp [Table.openNext, Table.changeAt, found]
    | some old =>
        by_cases array : ∃ items, old = .tables items
        · obtain ⟨items, rfl⟩ := array
          have nonempty : items ≠ [] := by
            rintro rfl
            refine settled [key] ?_
            rw [known, found]
            rfl
          have last := List.getLast?_eq_some_getLast nonempty
          simp [openNext_array found, Value.thing, Value.entries?, last]
        · have refused : ∀ items, old ≠ .tables items := fun items same => array ⟨items, same⟩
          have other : old.thing ≠ .array := fun same => array (Value.exists_tables_of_thing same)
          simp [openNext_refused found refused, other]
  · intro group table changed entries done
    cases found : table.lookup? key with
    | none =>
        obtain rfl : table ++ [(key, .tables [[]])] = changed := by
          simpa [Table.openNext, Table.changeAt, found] using done
        rw [← Value.thing_next []]
        exact Value.outline_clear_put entries (Table.lookup?_append_new found)
          (fun _ => Table.lookup?_append_other) fun place nonempty => Value.outline_next [] nonempty
    | some old =>
        by_cases array : ∃ items, old = .tables items
        · obtain ⟨items, rfl⟩ := array
          rw [openNext_array found] at done
          obtain rfl := Option.some.inj done
          rw [← Value.thing_next items]
          exact Value.outline_clear_put entries (Table.lookup?_replace_found found)
            (fun _ => Table.lookup?_replace_other)
            fun place nonempty => Value.outline_next items nonempty
        · rw [openNext_refused found fun items same => array ⟨items, same⟩] at done
          cases done

/-- On a path of some length it does not matter how the table at its start came to be. -/
theorem changeAt_any_origin
    (same : path = [] → ∀ first second table, change first table = change second table)
    (first second : Origin) (table : Table) :
    Table.changeAt made change path first table = Table.changeAt made change path second table := by
  cases path with
  | nil => exact same rfl first second table
  | cons => rfl

/-- A value under a dotted key. -/
theorem define (closed : value.entries? = none) (path : List String) (key : String) :
    Acts (fun _ table => Table.define path key value table)
      (fun outline =>
        outline.Leads .dotted path ∧
        (path = [] ∨ outline path = none ∨ outline path = some (.table .dotted)) ∧
        outline (path ++ [key]) = none)
      (fun outline => (outline.fill .dotted path).put (path ++ [key]) (.value value)) := by
  have acts : Acts (Table.changeAt .dotted _ path) _ _ :=
    (insert? closed path key).changeAt (by decide) path
  have anyOrigin (group : Value) (table : Table) :
      Table.define path key value table = Table.changeAt .dotted _ path group.origin table :=
    changeAt_any_origin (by rintro rfl _ _ _; rfl) _ _ table
  constructor
  · intro group table entries settled
    rw [anyOrigin group, acts.isSome_iff entries settled]
    simp only [Outline.below, List.append_nil, Outline.fill_key, Outline.fill_self]
  · intro group table changed entries done
    rw [anyOrigin group] at done
    rw [acts.outline_eq entries done, Outline.graft_put]

end Acts

end CertificateAudit.Toml
