import CertificateAudit.Proofs.Toml.Change
import CertificateAudit.Proofs.Toml.Document

/-!
A document gives tables exactly if none of its statements is in the way of another, and then the
tables have what the outline of the document says (`tables?_outline_iff`).
-/

namespace CertificateAudit.Toml

/-- A value that is no table to which statements can add. -/
def Value.IsClosed (value : Value) : Prop :=
  value.entries? = none ∧ value ≠ .tables []

def Statement.IsClosed : Statement → Prop
  | .entry ⟨_, _, value⟩ => value.IsClosed
  | _ => True

theorem Outline.IsSettled.after {outline : Outline} {statement : Statement}
    (settled : outline.IsSettled) (closed : statement.IsClosed) (header : List String) :
    (outline.after header statement).IsSettled := by
  intro place
  have filled (made : Origin) (path : List String) :
      outline.fill made path place ≠ some (.value (.tables [])) := by
    unfold fill
    split
    next => simp
    next => exact settled place
  cases statement with
  | entry entry =>
      simp only [Outline.after, put]
      split
      next => simpa using closed.2
      next => exact filled _ _
  | table path key =>
      simp only [Outline.after, put]
      split
      next => simp
      next => exact filled _ _
  | element path key =>
      simp only [Outline.after, put, clearBelow]
      split
      next => simp
      next =>
        split
        next => simp
        next => exact filled _ _

section

variable {draft next : Draft} {statement : Statement}

theorem add_isSome_iff (settled : draft.root.outline.IsSettled)
    (entered : draft.root.outline.IsEntered draft.header) (closed : statement.IsClosed) :
    (draft.add statement).isSome ↔ draft.root.outline.Allows draft.header statement := by
  obtain ⟨root, header⟩ := draft
  cases statement with
  | entry entry =>
      have acts : Acts (Table.changeAt .implied _ header) _ _ :=
        (Acts.define closed.1 entry.path entry.key).changeAt (by decide) header
      have same := @acts.isSome_iff (.table .header root) root rfl settled
      have leads : root.outline.Leads .implied header := by
        intro part isPrefix _ thing membership
        obtain ⟨found, present, admits⟩ := entered part isPrefix
        exact Option.some.inj (present.symm.trans membership) ▸ admits
      have entered : (Value.table .header root).outline.IsEntered header := entered
      rw [Draft.add, Option.isSome_map]
      refine same.trans ?_
      simp only [entered.fill_eq]
      exact ⟨And.right, fun allowed => ⟨leads, allowed⟩⟩
  | table path key =>
      have acts : Acts (Table.changeAt .implied _ path) _ _ :=
        (Acts.openTable key).changeAt (by decide) path
      have same := @acts.isSome_iff (.table .header root) root rfl settled
      rw [Draft.add, Option.isSome_map]
      refine same.trans ?_
      simp only [Outline.below, Outline.fill_key]
      rfl
  | element path key =>
      have acts : Acts (Table.changeAt .implied _ path) _ _ :=
        (Acts.openNext key).changeAt (by decide) path
      have same := @acts.isSome_iff (.table .header root) root rfl settled
      rw [Draft.add, Option.isSome_map]
      refine same.trans ?_
      simp only [Outline.below, Outline.fill_key]
      rfl

theorem add_outline (entered : draft.root.outline.IsEntered draft.header)
    (closed : statement.IsClosed) (added : draft.add statement = some next) :
    next.root.outline = draft.root.outline.after draft.header statement ∧
      next.header = statement.headerAfter draft.header := by
  obtain ⟨root, header⟩ := draft
  cases statement with
  | entry entry =>
      have acts : Acts (Table.changeAt .implied _ header) _ _ :=
        (Acts.define closed.1 entry.path entry.key).changeAt (by decide) header
      obtain ⟨changed, done, rfl⟩ := Option.map_eq_some_iff.mp added
      have same := @acts.outline_eq (.table .header root) root changed rfl done
      have entered : (Value.table .header root).outline.IsEntered header := entered
      rw [entered.fill_eq, entered.graft_fill_put] at same
      exact ⟨same, rfl⟩
  | table path key =>
      have acts : Acts (Table.changeAt .implied _ path) _ _ :=
        (Acts.openTable key).changeAt (by decide) path
      obtain ⟨changed, done, rfl⟩ := Option.map_eq_some_iff.mp added
      have same := @acts.outline_eq (.table .header root) root changed rfl done
      exact ⟨same.trans (Outline.graft_put ..), rfl⟩
  | element path key =>
      have acts : Acts (Table.changeAt .implied _ path) _ _ :=
        (Acts.openNext key).changeAt (by decide) path
      obtain ⟨changed, done, rfl⟩ := Option.map_eq_some_iff.mp added
      have same := @acts.outline_eq (.table .header root) root changed rfl done
      exact ⟨same.trans (Outline.graft_clear_put ..), rfl⟩

/-- Statements can be added to a document exactly if each is allowed, and then the document has what
the outline says. -/
theorem foldlM_add_iff {statements : List Statement} {final : Outline}
    (settled : draft.root.outline.IsSettled) (entered : draft.root.outline.IsEntered draft.header)
    (closed : ∀ statement ∈ statements, statement.IsClosed) :
    (∃ last, statements.foldlM Draft.add draft = some last ∧ last.root.outline = final) ↔
      Outline.Builds draft.header draft.root.outline statements final := by
  induction statements generalizing draft with
  | nil =>
      constructor
      · rintro ⟨last, same, rfl⟩
        obtain rfl := Option.some.inj same
        exact .done
      · rintro ⟨⟩
        exact ⟨draft, rfl, rfl⟩
  | cons statement statements inductionHypothesis =>
      have closedHere := closed statement List.mem_cons_self
      have closedBehind : ∀ statement ∈ statements, statement.IsClosed :=
        fun statement membership => closed statement (List.mem_cons_of_mem _ membership)
      have possible := add_isSome_iff settled entered closedHere
      have behind {next : Draft} (added : draft.add statement = some next) :
          (∃ last, statements.foldlM Draft.add next = some last ∧ last.root.outline = final) ↔
            Outline.Builds (statement.headerAfter draft.header)
              (draft.root.outline.after draft.header statement) statements final := by
        have allowed := possible.mp (Option.isSome_of_eq_some added)
        obtain ⟨outline, header⟩ := add_outline entered closedHere added
        rw [← outline, ← header]
        refine inductionHypothesis ?_ ?_ closedBehind
        · rw [outline]
          exact settled.after closedHere _
        · rw [outline, header]
          exact entered.after allowed
      constructor
      · rintro ⟨last, done, same⟩
        rw [List.foldlM_cons] at done
        obtain ⟨next, added, rest⟩ := Option.bind_eq_some_iff.mp done
        exact .next (possible.mp (Option.isSome_of_eq_some added))
          ((behind added).mp ⟨last, rest, same⟩)
      · rintro (_ | ⟨allowed, builds⟩)
        obtain ⟨next, added⟩ := Option.isSome_iff_exists.mp (possible.mpr allowed)
        obtain ⟨last, rest, same⟩ := (behind added).mpr builds
        refine ⟨last, ?_, same⟩
        rw [List.foldlM_cons]
        exact Option.bind_eq_some_iff.mpr ⟨next, added, rest⟩

end

/-- A document gives tables exactly if none of its statements is in the way of another, and then
they have what the outline says. -/
theorem tables?_outline_iff {statements : List Statement} {final : Outline}
    (closed : ∀ statement ∈ statements, statement.IsClosed) :
    (∃ root, tables? statements = some root ∧ root.outline = final) ↔
      Outline.Builds [] .root statements final := by
  have settled : (Table.outline []).IsSettled := by
    intro place
    rw [Table.outline_nil, Outline.root]
    split <;> simp
  have entered : (Table.outline []).IsEntered [] := by
    intro part isPrefix
    rw [List.prefix_nil.mp isPrefix]
    exact ⟨.table .header, rfl, Thing.admits_table .header⟩
  have whole := @foldlM_add_iff {} statements final settled entered closed
  rw [Table.outline_nil] at whole
  refine Iff.trans ?_ whole
  simp only [tables?, Option.map_eq_some_iff]
  exact ⟨fun ⟨root, ⟨last, done, same⟩, outline⟩ => ⟨last, done, same ▸ outline⟩,
    fun ⟨last, done, same⟩ => ⟨last.root, ⟨last, done, rfl⟩, same⟩⟩

/-! Values of a document are closed. -/

theorem isClosed_of_spells {limits : Limits} {depth : Nat} {text : List Char} {value : Value}
    (spelled : Spells limits depth value text) : value.IsClosed := by
  have scalar {value : Value} (spelled : SpellsScalar limits value text) : value.IsClosed := by
    cases spelled <;> exact ⟨rfl, by simp⟩
  cases depth with
  | zero => exact scalar spelled
  | succ depth =>
      rcases spelled with spelled | spelled
      · exact scalar spelled
      · cases spelled <;> exact ⟨rfl, by simp⟩

theorem SpellsLine.isClosed {limits : Limits} {statements : List Statement} {line : List Char}
    (spelled : SpellsLine limits statements line) :
    ∀ statement ∈ statements, statement.IsClosed := by
  cases spelled with
  | blank => exact List.forall_mem_nil _
  | statement _ spelled =>
      rw [List.forall_mem_singleton]
      cases spelled with
      | entry spelled =>
          cases spelled with
          | intro _ _ spelled => exact isClosed_of_spells spelled
      | table => trivial
      | element => trivial

theorem SpellsLines.isClosed {limits : Limits} {statements : List Statement} {text : List Char}
    (spelled : SpellsLines limits statements text) :
    ∀ statement ∈ statements, statement.IsClosed := by
  induction spelled with
  | last spelled => exact spelled.isClosed
  | next spelled _ _ inductionHypothesis =>
      exact List.forall_mem_append.mpr ⟨spelled.isClosed, inductionHypothesis⟩

theorem SpellsDocument.isClosed {limits : Limits} {statements : List Statement} {text : List Char}
    (spelled : SpellsDocument limits statements text) :
    ∀ statement ∈ statements, statement.IsClosed := by
  cases spelled with
  | plain spelled => exact spelled.isClosed
  | marked spelled => exact spelled.isClosed

end CertificateAudit.Toml
