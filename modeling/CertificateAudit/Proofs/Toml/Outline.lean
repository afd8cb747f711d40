import CertificateAudit.Proofs.Toml.Grammar

/-!
Which statements of a document are in the way of others, told without any tables. An outline says
what stands at each place of a document so far, `Outline.Allows` which statements may follow, and
`Outline.after` what stands where behind them; `IsValid` documents are those in which each statement
is allowed.
-/

namespace CertificateAudit.Toml

/-- What can stand at a place of a document. -/
inductive Thing where
  | value (value : Value)
  | table (origin : Origin)
  | array

/-- Whether names may lead through a thing. A dotted key does not lead through a table with a header
of its own. -/
def Thing.Admits (made : Origin) : Thing → Prop
  | .value _ => False
  | .table origin => made = .dotted → origin ≠ .header
  | .array => True

theorem Thing.admits_table (origin : Origin) : (Thing.table origin).Admits .implied :=
  fun same => absurd same (by decide)

/-- What stands at the places of a document. -/
abbrev Outline := List String → Option Thing

namespace Outline

def root : Outline := fun place => if place = [] then some (.table .header) else none

def below (place : List String) (outline : Outline) : Outline := fun path => outline (place ++ path)

/-- Put a table at each place on a path where there is nothing. -/
def fill (made : Origin) (path : List String) (outline : Outline) : Outline := fun place =>
  if place <+: path ∧ outline place = none then some (.table made) else outline place

def put (place : List String) (thing : Thing) (outline : Outline) : Outline := fun other =>
  if other = place then some thing else outline other

def clearBelow (place : List String) (outline : Outline) : Outline := fun other =>
  if place <+: other ∧ other ≠ place then none else outline other

def Leads (made : Origin) (path : List String) (outline : Outline) : Prop :=
  ∀ part, part <+: path → part ≠ [] → ∀ thing ∈ outline part, thing.Admits made

end Outline

namespace Statement

def place (header : List String) : Statement → List String
  | .entry ⟨path, key, _⟩ => header ++ (path ++ [key])
  | .table path key => path ++ [key]
  | .element path key => path ++ [key]

def thing : Statement → Thing
  | .entry ⟨_, _, value⟩ => .value value
  | .table _ _ => .table .header
  | .element _ _ => .array

def headerAfter (header : List String) : Statement → List String
  | .entry _ => header
  | .table path key => path ++ [key]
  | .element path key => path ++ [key]

end Statement

namespace Outline

/-- Whether a statement may follow under some header. A place is written once, but for a table that
is only known from longer headers and for one more table of an array. A dotted key adds to tables of
dotted keys only. -/
def Allows (header : List String) (outline : Outline) : Statement → Prop
  | .entry ⟨path, key, _⟩ =>
      Leads .dotted path (outline.below header) ∧
      (path = [] ∨ outline (header ++ path) = none ∨
        outline (header ++ path) = some (.table .dotted)) ∧
      outline (header ++ (path ++ [key])) = none
  | .table path key =>
      Leads .implied path outline ∧
      (outline (path ++ [key]) = none ∨ outline (path ++ [key]) = some (.table .implied))
  | .element path key =>
      Leads .implied path outline ∧
      (outline (path ++ [key]) = none ∨ outline (path ++ [key]) = some .array)

def after (header : List String) (outline : Outline) : Statement → Outline
  | .entry ⟨path, key, value⟩ =>
      (outline.fill .dotted (header ++ path)).put (header ++ (path ++ [key])) (.value value)
  | .table path key => (outline.fill .implied path).put (path ++ [key]) (.table .header)
  | .element path key =>
      ((outline.fill .implied path).clearBelow (path ++ [key])).put (path ++ [key]) .array

/-- Statements that may follow under some header, and what stands where behind them. -/
inductive Builds : List String → Outline → List Statement → Outline → Prop where
  | done {header outline} : Builds header outline [] outline
  | next {header outline statement statements final} :
      Allows header outline statement →
      Builds (statement.headerAfter header) (outline.after header statement) statements final →
      Builds header outline (statement :: statements) final

end Outline

/-- Documents in which no statement is in the way of another. -/
def IsValid (statements : List Statement) : Prop :=
  ∃ final, Outline.Builds [] .root statements final

/-! What can be said of outlines. -/

namespace Outline

/-- No array of tables is written as a value, in which nothing could be put. -/
def IsSettled (outline : Outline) : Prop :=
  ∀ place, outline place ≠ some (.value (.tables []))

/-- Change what stands below a place. -/
def graft (place : List String) (effect : Outline → Outline) (outline : Outline) : Outline :=
  fun other =>
    if place <+: other then effect (outline.below place) (other.drop place.length)
    else outline other

def IsEntered (header : List String) (outline : Outline) : Prop :=
  ∀ part, part <+: header → ∃ thing, outline part = some thing ∧ thing.Admits .implied

variable {made : Origin} {header path : List String} {key : String} {outline inner : Outline}

theorem ext_key {first second : Outline} (key : String)
    (under : ∀ place, first (key :: place) = second (key :: place))
    (elsewhere : ∀ place, ¬ [key] <+: place → first place = second place) : first = second := by
  funext place
  by_cases isUnder : [key] <+: place
  · obtain ⟨rest, rfl⟩ := isUnder
    exact under rest
  · exact elsewhere place isUnder

theorem put_apart {place other : List String} (apart : ¬ place <+: other) (thing : Thing)
    (outline : Outline) : outline.put place thing other = outline other := by
  refine if_neg ?_
  rintro rfl
  exact apart List.prefix_rfl

theorem clearBelow_apart {place other : List String} (apart : ¬ place <+: other)
    (outline : Outline) : outline.clearBelow place other = outline other :=
  if_neg fun below => apart below.1

theorem fill_nil (present : outline [] ≠ none) : outline.fill made [] = outline := by
  funext place
  refine if_neg ?_
  rintro ⟨isPrefix, absent⟩
  rw [List.prefix_nil.mp isPrefix] at absent
  exact present absent

theorem fill_cons_same (same : ∀ path, outline (key :: path) = inner path) (place : List String) :
    outline.fill made (key :: path) (key :: place) = inner.fill made path place := by
  simp [fill, same]

@[simp]
theorem fill_key (made : Origin) (path : List String) (key : String) (outline : Outline) :
    outline.fill made path (path ++ [key]) = outline (path ++ [key]) := by
  refine if_neg ?_
  rintro ⟨isPrefix, _⟩
  exact absurd isPrefix.length_le (by simp)

theorem fill_self (made : Origin) (path : List String) (outline : Outline) :
    outline.fill made path path = some (.table made) ↔
      outline path = none ∨ outline path = some (.table made) := by
  by_cases absent : outline path = none <;> simp [fill, absent]

theorem graft_put (path : List String) (key : String) (thing : Thing) (outline : Outline) :
    outline.graft path (fun inner => inner.put [key] thing) =
      outline.put (path ++ [key]) thing := by
  funext place
  by_cases isPrefix : path <+: place
  · obtain ⟨rest, rfl⟩ := isPrefix
    simp [graft, put, below]
  · have apart : ¬ path ++ [key] <+: place := fun longer =>
      isPrefix ((List.prefix_append path [key]).trans longer)
    rw [graft, if_neg isPrefix, put_apart apart]

theorem graft_clear_put (path : List String) (key : String) (thing : Thing) (outline : Outline) :
    outline.graft path (fun inner => (inner.clearBelow [key]).put [key] thing) =
      (outline.clearBelow (path ++ [key])).put (path ++ [key]) thing := by
  funext place
  by_cases isPrefix : path <+: place
  · obtain ⟨rest, rfl⟩ := isPrefix
    simp [graft, put, clearBelow, below, List.prefix_append_right_inj]
  · have apart : ¬ path ++ [key] <+: place := fun longer =>
      isPrefix ((List.prefix_append path [key]).trans longer)
    rw [graft, if_neg isPrefix, put_apart apart, clearBelow_apart apart]

theorem leads_nil (outline : Outline) : outline.Leads made [] :=
  fun _ isPrefix nonempty => absurd (List.prefix_nil.mp isPrefix) nonempty

theorem leads_cons (same : ∀ path, outline (key :: path) = inner path) :
    outline.Leads made (key :: path) ↔
      (∀ thing ∈ inner [], thing.Admits made) ∧ inner.Leads made path := by
  constructor
  · intro leads
    constructor
    · intro thing membership
      refine leads [key] ⟨path, rfl⟩ (by simp) thing ?_
      rw [same]
      exact membership
    · intro part isPrefix _ thing membership
      refine leads (key :: part) (List.cons_prefix_cons.mpr ⟨rfl, isPrefix⟩) (by simp) thing ?_
      rw [same]
      exact membership
  · rintro ⟨first, others⟩ part isPrefix nonempty thing membership
    cases part with
    | nil => exact absurd rfl nonempty
    | cons name part =>
        obtain ⟨rfl, rest⟩ := List.cons_prefix_cons.mp isPrefix
        rw [same] at membership
        by_cases last : part = []
        · subst last
          exact first thing membership
        · exact others part rest last thing membership

theorem IsEntered.fill_eq (entered : outline.IsEntered header) :
    outline.fill made header = outline := by
  funext place
  refine if_neg ?_
  rintro ⟨isPrefix, absent⟩
  obtain ⟨thing, present, _⟩ := entered place isPrefix
  rw [absent] at present
  cases present

/-- A dotted key under a header comes to the same as the header and the key in one. -/
theorem IsEntered.graft_fill_put (entered : outline.IsEntered header) (path : List String)
    (key : String) (thing : Thing) :
    outline.graft header (fun inner => (inner.fill made path).put (path ++ [key]) thing) =
      (outline.fill made (header ++ path)).put (header ++ (path ++ [key])) thing := by
  funext place
  by_cases isPrefix : header <+: place
  · obtain ⟨rest, rfl⟩ := isPrefix
    simp [graft, put, fill, below, List.prefix_append_right_inj]
  · have apart : ¬ header ++ (path ++ [key]) <+: place := fun longer =>
      isPrefix ((List.prefix_append _ _).trans longer)
    have present : place <+: header ++ path → outline place ≠ none := by
      intro onWay absent
      obtain shorter | longer :=
        List.prefix_or_prefix_of_prefix onWay (List.prefix_append header path)
      · obtain ⟨thing, present, _⟩ := entered place shorter
        rw [absent] at present
        cases present
      · exact isPrefix longer
    rw [graft, if_neg isPrefix, put_apart apart, fill, if_neg fun both => present both.1 both.2]

theorem Leads.fill_entered (leads : outline.Leads .implied path)
    (entered : outline.IsEntered header) : (outline.fill .implied path).IsEntered path := by
  intro part isPrefix
  cases known : outline part with
  | none => exact ⟨.table .implied, if_pos ⟨isPrefix, known⟩, Thing.admits_table .implied⟩
  | some thing =>
      have filled : outline.fill .implied path part = some thing := by
        simp [fill, known]
      by_cases top : part = []
      · subst top
        obtain ⟨first, present, admits⟩ := entered [] List.nil_prefix
        rw [known] at present
        exact ⟨thing, filled, Option.some.inj present ▸ admits⟩
      · exact ⟨thing, filled, leads part isPrefix top thing known⟩

theorem IsEntered.put (entered : outline.IsEntered path) (key : String) {thing : Thing}
    (admits : thing.Admits .implied) :
    (outline.put (path ++ [key]) thing).IsEntered (path ++ [key]) := by
  intro part isPrefix
  rcases List.prefix_concat_iff.mp isPrefix with rfl | shorter
  · exact ⟨thing, if_pos rfl, admits⟩
  · have apart : ¬ path ++ [key] <+: part := fun longer =>
      absurd (longer.trans shorter).length_le (by simp)
    rw [put_apart apart]
    exact entered part shorter

theorem IsEntered.after (entered : outline.IsEntered header) {statement : Statement}
    (allowed : outline.Allows header statement) :
    (outline.after header statement).IsEntered (statement.headerAfter header) := by
  cases statement with
  | entry entry =>
      intro part (isPrefix : part <+: header)
      obtain ⟨thing, present, admits⟩ := entered part isPrefix
      have apart : ¬ header ++ (entry.path ++ [entry.key]) <+: part := fun longer =>
        absurd (longer.trans isPrefix).length_le (by simp)
      refine ⟨thing, ?_, admits⟩
      rw [Outline.after, put_apart apart]
      simp [fill, present]
  | table path key => exact (allowed.1.fill_entered entered).put key (Thing.admits_table .header)
  | element path key =>
      refine IsEntered.put ?_ key trivial
      intro part isPrefix
      have apart : ¬ path ++ [key] <+: part := fun longer =>
        absurd (longer.trans isPrefix).length_le (by simp)
      rw [clearBelow_apart apart]
      exact allowed.1.fill_entered entered part isPrefix

end Outline

end CertificateAudit.Toml
