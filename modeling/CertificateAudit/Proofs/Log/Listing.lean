import CertificateAudit.Proofs.Json.Whole
import CertificateAudit.Proofs.Pem.Certificate
import CertificateAudit.Proofs.Traversal

/-!
What is taken from a listing. `Renders` says that an object is a way of writing an entry: the known
members may stand in any order among others, and a text that an entry does not have is null or
missing. From a text that spells a list of such objects exactly the entries with two readable dates
are taken, and one object that spoils the listing leaves nothing (`readListing_exact`).
-/

namespace CertificateAudit.Json

variable {α : Type} {spells : α → List Char → Prop} {values : List α} {inside text : List Char}

theorem Listed.exists_of_mem (listed : Listed spells values inside) {value : α}
    (membership : value ∈ values) : ∃ text, spells value text := by
  induction listed with
  | last _ spelled _ =>
      obtain rfl := List.mem_singleton.mp membership
      exact ⟨_, spelled⟩
  | next _ spelled _ _ inductionHypothesis =>
      rcases List.mem_cons.mp membership with rfl | later
      · exact ⟨_, spelled⟩
      · exact inductionHypothesis later

theorem Enclosed.exists_of_mem (enclosed : Enclosed spells values inside) {value : α}
    (membership : value ∈ values) : ∃ text, spells value text := by
  cases enclosed with
  | empty => cases membership
  | some listed => exact listed.exists_of_mem membership

theorem Spells.exists_of_item {items : List Json} (spells : Spells (.array items) text)
    {item : Json} (membership : item ∈ items) : ∃ text, Spells item text := by
  cases spells with
  | array enclosed => exact enclosed.exists_of_mem membership

theorem Spells.exists_of_member {members : List (Option String × Json)}
    (spells : Spells (.object members) text) {member : Option String × Json}
    (membership : member ∈ members) : ∃ text, Spells member.2 text := by
  cases spells with
  | object enclosed =>
      obtain ⟨_, labelled⟩ := enclosed.exists_of_mem membership
      cases labelled with
      | member _ _ _ spelled => exact ⟨_, spelled⟩

/-- The values of the members with this name. -/
def valuesOf (name : String) (members : List (Option String × Json)) : List Json :=
  (members.filter fun member => member.1 == some name).map Prod.snd

/-- Every name in an object has a text. -/
def HasNames : Json → Prop
  | .object members => ∀ member ∈ members, member.1 ≠ none
  | _ => True

end CertificateAudit.Json

namespace CertificateAudit.Listing

open CertificateAudit.Calendar CertificateAudit.Json CertificateAudit.Text

def Key.name : Key → String
  | .id => "id"
  | .issuerName => "issuer_name"
  | .commonName => "common_name"
  | .notBefore => "not_before"
  | .notAfter => "not_after"
  | .serialNumber => "serial_number"

theorem Key.ofName?_eq_some_iff {name : String} {key : Key} :
    ofName? name = some key ↔ name = key.name := by
  constructor
  · intro known
    unfold ofName? at known
    split at known <;> cases known <;> rfl
  · rintro rfl
    cases key <;> rfl

/-! Entries as they are written. -/

/-- The values of a member that may be missing, null or a string. -/
inductive WritesText : Option String → List Json → Prop where
  | missing : WritesText none []
  | null : WritesText none [.null]
  | given {text} : WritesText (some text) [.string (some text)]

/-- The members of an object that is a way of writing the entry. -/
structure Writes (listing : Listing) (members : List (Option String × Json)) : Prop where
  id : valuesOf "id" members = [.ofInt listing.id]
  inRange : InRange listing.id
  issuerName : WritesText listing.issuerName (valuesOf "issuer_name" members)
  commonName : WritesText listing.commonName (valuesOf "common_name" members)
  notBefore : WritesText listing.notBefore (valuesOf "not_before" members)
  notAfter : WritesText listing.notAfter (valuesOf "not_after" members)
  serialNumber : WritesText listing.serialNumber (valuesOf "serial_number" members)

def Renders (listing : Listing) (item : Json) : Prop :=
  ∃ members, item = .object members ∧ Writes listing members

/-- Items that spoil a whole listing: what is neither an object nor a list, and an object without
a number of a certificate in range or with another value than a string under the name of a text. -/
inductive Spoils : Json → Prop where
  | plain {item} :
      (∀ members, item ≠ .object members) → (∀ items, item ≠ .array items) → Spoils item
  | noId {members} : valuesOf "id" members = [] → Spoils (.object members)
  | badId {members value} :
      value ∈ valuesOf "id" members → (∀ n, InRange n → value ≠ .ofInt n) →
      Spoils (.object members)
  | badText {members value} {key : Key} :
      key ≠ .id → value ∈ valuesOf key.name members → value ≠ .null →
      (∀ text, value ≠ .string text) → Spoils (.object members)

/-! The members that are read. -/

variable {members : List (Option String × Json)} {known : List (Key × Json)} {key : Key}

/-- The values that are known of a member. -/
def knownValues (key : Key) (known : List (Key × Json)) : List Json :=
  (known.filter fun member => member.1 == key).map Prod.snd

theorem knownValues_cons (own : Key) (value : Json) :
    knownValues key ((own, value) :: known) =
      if own = key then value :: knownValues key known else knownValues key known := by
  unfold knownValues
  by_cases same : own = key
  · simp [same]
  · simp [same]

theorem valuesOf_cons (own name : String) (value : Json) :
    valuesOf name ((some own, value) :: members) =
      if own = name then value :: valuesOf name members else valuesOf name members := by
  unfold valuesOf
  by_cases same : own = name
  · simp [same]
  · simp [same]

theorem exists_knownMembers? (named : ∀ member ∈ members, member.1 ≠ none) :
    ∃ known, knownMembers? members = some known := by
  induction members with
  | nil => exact ⟨[], rfl⟩
  | cons member members inductionHypothesis =>
      obtain ⟨known, read⟩ := inductionHypothesis fun other membership =>
        named other (List.mem_cons_of_mem member membership)
      obtain ⟨_ | name, value⟩ := member
      · exact absurd rfl (named _ List.mem_cons_self)
      · rw [knownMembers?, read]
        cases Key.ofName? name with
        | none => exact ⟨known, rfl⟩
        | some key => exact ⟨(key, value) :: known, rfl⟩

theorem knownValues_eq (read : knownMembers? members = some known) (key : Key) :
    knownValues key known = valuesOf key.name members := by
  induction members generalizing known with
  | nil =>
      cases read
      rfl
  | cons member members inductionHypothesis =>
      obtain ⟨_ | name, value⟩ := member
      · cases read
      · obtain ⟨others, readOthers, found⟩ := Option.bind_eq_some_iff.mp read
        have same := inductionHypothesis readOthers
        rw [valuesOf_cons]
        cases named : Key.ofName? name with
        | none =>
            have foreign : name ≠ key.name := by
              rintro rfl
              cases named.symm.trans (Key.ofName?_eq_some_iff.mpr rfl)
            rw [named] at found
            cases found
            rw [if_neg foreign, same]
        | some own =>
            obtain rfl := Key.ofName?_eq_some_iff.mp named
            rw [named] at found
            cases found
            have sameName : own.name = key.name ↔ own = key := by
              constructor
              · intro equal
                rw [equal, Key.ofName?_eq_some_iff.mpr rfl] at named
                exact (Option.some.inj named).symm
              · rintro rfl
                rfl
            rw [knownValues_cons, same]
            simp only [sameName]

/-- The text in the values of a member, of which there may be one or none. -/
def textOf? : List Json → Option (Option String)
  | [] => some none
  | [value] => text? value
  | _ => none

/-- The number in the values of a member, of which there has to be one. -/
def idOf? : List Json → Option Int
  | [value] => id? value
  | _ => none

theorem textMember?_eq (key : Key) (known : List (Key × Json)) :
    textMember? key known = textOf? (knownValues key known) := by
  unfold textMember? knownValues
  generalize known.filter _ = found
  rcases found with _ | ⟨_, _ | ⟨_, _⟩⟩ <;> rfl

theorem idMember?_eq (known : List (Key × Json)) :
    idMember? known = idOf? (knownValues .id known) := by
  unfold idMember? knownValues
  generalize known.filter _ = found
  rcases found with _ | ⟨_, _ | ⟨_, _⟩⟩ <;> rfl

theorem textOf?_of_writes {text : Option String} {values : List Json}
    (writes : WritesText text values) : textOf? values = some text := by
  cases writes <;> rfl

/-- A value that is no text spoils the member, whatever else is there. -/
theorem textOf?_eq_none {value : Json} {values : List Json} (membership : value ∈ values)
    (noText : text? value = none) : textOf? values = none := by
  match values with
  | [] => cases membership
  | [only] =>
      obtain rfl := List.mem_singleton.mp membership
      exact noText
  | _ :: _ :: _ => rfl

theorem idOf?_eq_none {value : Json} {values : List Json} (membership : value ∈ values)
    (noId : id? value = none) : idOf? values = none := by
  match values with
  | [] => cases membership
  | [only] =>
      obtain rfl := List.mem_singleton.mp membership
      exact noId
  | _ :: _ :: _ => rfl

/-! Items that are read. -/

theorem ofJson?_of_renders {listing : Listing} {item : Json} (renders : Renders listing item)
    (named : item.HasNames) : ofJson? item = some listing := by
  obtain ⟨members, rfl, writes⟩ := renders
  obtain ⟨known, read⟩ := exists_knownMembers? named
  have id : idMember? known = some listing.id := by
    rw [idMember?_eq, knownValues_eq read, Key.name, writes.id]
    exact idOfSpelling?_toString writes.inRange
  have text : ∀ key text, WritesText text (valuesOf key.name members) →
      textMember? key known = some text := by
    intro key text written
    rw [textMember?_eq, knownValues_eq read]
    exact textOf?_of_writes written
  simp only [ofJson?, read, id, text .issuerName _ writes.issuerName,
    text .commonName _ writes.commonName, text .notBefore _ writes.notBefore,
    text .notAfter _ writes.notAfter, text .serialNumber _ writes.serialNumber,
    Option.bind_eq_bind, Option.bind_some]
  rfl

theorem mapM_ofJson?_of_renders {listings : List Listing} {items : List Json}
    (rendered : List.Forall₂ Renders listings items) (named : ∀ item ∈ items, item.HasNames) :
    items.mapM ofJson? = some listings := by
  rw [mapM_eq_some_iff]
  induction rendered with
  | nil => exact .nil
  | cons renders _ inductionHypothesis =>
      refine .cons (ofJson?_of_renders renders (named _ List.mem_cons_self)) ?_
      exact inductionHypothesis fun item later => named item (List.mem_cons_of_mem _ later)

/-- An object is not read if one of its members is not. -/
theorem ofJson?_eq_none (unread : ∀ known, knownMembers? members = some known →
    idMember? known = none ∨ ∃ key ≠ .id, textMember? key known = none) :
    ofJson? (.object members) = none := by
  cases read : knownMembers? members with
  | none => simp only [ofJson?, read, Option.bind_eq_bind, Option.bind_none]
  | some known =>
      rcases unread known read with noId | ⟨key, noId, noText⟩
      · simp only [ofJson?, read, noId, Option.bind_eq_bind, Option.bind_some, Option.bind_none]
      · cases key with
        | id => exact absurd rfl noId
        | _ =>
            simp only [ofJson?, read, noText, Option.bind_eq_bind, Option.bind_some,
              Option.bind_none, Option.bind_fun_none]

theorem exists_spells_of_valuesOf {text : List Char} (spells : Spells (.object members) text)
    {name : String} {value : Json} (membership : value ∈ valuesOf name members) :
    ∃ text, Spells value text := by
  obtain ⟨member, inside, rfl⟩ := List.mem_map.mp membership
  exact spells.exists_of_member (List.mem_of_mem_filter inside)

theorem ofJson?_of_spoils {item : Json} {text : List Char} (spells : Spells item text)
    (spoils : Spoils item) : ofJson? item = none := by
  cases spoils with
  | plain noObject noArray =>
      cases spells with
      | object => exact absurd rfl (noObject _)
      | array => exact absurd rfl (noArray _)
      | _ => rfl
  | noId missing =>
      refine ofJson?_eq_none fun known read => .inl ?_
      rw [idMember?_eq, knownValues_eq read, Key.name, missing]
      rfl
  | @badId members value membership other =>
      refine ofJson?_eq_none fun known read => .inl ?_
      rw [idMember?_eq, knownValues_eq read]
      refine idOf?_eq_none membership (Option.eq_none_iff_forall_ne_some.mpr fun n given => ?_)
      obtain ⟨valueText, spelled⟩ := exists_spells_of_valuesOf spells membership
      obtain ⟨inRange, same⟩ := (id?_eq_some_iff spelled).mp given
      exact other n inRange same
  | badText noId membership notNull notString =>
      refine ofJson?_eq_none fun known read => .inr ⟨_, noId, ?_⟩
      rw [textMember?_eq, knownValues_eq read]
      refine textOf?_eq_none membership ?_
      unfold text?
      split
      case h_1 => exact absurd rfl notNull
      case h_2 => exact absurd rfl (notString _)
      case h_3 => rfl

/-! Entries that are taken. -/

/-- The candidate of an entry with two readable dates. -/
inductive Becomes (listing : Listing) : Candidate → Prop where
  | intro {first last notBefore notAfter} :
      listing.notBefore = some first → timeStampDate? first = some notBefore →
      listing.notAfter = some last → timeStampDate? last = some notAfter →
      Becomes listing {
        id := listing.id
        notBefore
        notAfter
        commonName := listing.commonName
        issuerName := listing.issuerName
        serialNumber := listing.serialNumber }

/-- The candidates are those of the entries, in order; an entry without one is left out. -/
inductive Kept : List Listing → List Candidate → Prop where
  | done : Kept [] []
  | keep {listing candidate listings candidates} :
      Becomes listing candidate → Kept listings candidates →
      Kept (listing :: listings) (candidate :: candidates)
  | leave {listing listings candidates} :
      (∀ candidate, ¬ Becomes listing candidate) → Kept listings candidates →
      Kept (listing :: listings) candidates

theorem candidate?_eq_some_iff {listing : Listing} {candidate : Candidate} :
    candidate? listing = some candidate ↔ Becomes listing candidate := by
  simp only [candidate?, Option.bind_eq_bind, Option.bind_eq_some_iff, Option.pure_def,
    Option.some.injEq]
  constructor
  · rintro ⟨first, isFirst, notBefore, begins, last, isLast, notAfter, ends, rfl⟩
    exact .intro isFirst begins isLast ends
  · rintro ⟨isFirst, begins, isLast, ends⟩
    exact ⟨_, isFirst, _, begins, _, isLast, _, ends, rfl⟩

theorem kept_filterMap (listings : List Listing) :
    Kept listings (listings.filterMap candidate?) := by
  induction listings with
  | nil => exact .done
  | cons listing listings inductionHypothesis =>
      cases read : candidate? listing with
      | some candidate =>
          rw [List.filterMap_cons_some read]
          exact .keep (candidate?_eq_some_iff.mp read) inductionHypothesis
      | none =>
          rw [List.filterMap_cons_none read]
          refine .leave (fun candidate becomes => ?_) inductionHypothesis
          cases read.symm.trans (candidate?_eq_some_iff.mpr becomes)

end CertificateAudit.Listing

namespace CertificateAudit.Candidate

open CertificateAudit.Calendar CertificateAudit.Json CertificateAudit.Listing CertificateAudit.Text

variable {items : List Json} {before text after : List Char}

theorem isBlank_of_isSpace {c : Char} (space : isSpace c = true) : isBlank c = true := by
  simp only [isSpace, Bool.or_eq_true, beq_iff_eq] at space
  rcases space with ((rfl | rfl) | rfl) | rfl <;> decide

/-- Nothing but the blanks around it is trimmed off a list. -/
theorem trim_array (spells : Spells (.array items) text) (leading : IsSpaces before)
    (trailing : IsSpaces after) : trim (before ++ (text ++ after)) = text := by
  have started : trim (before ++ (text ++ after)) = trim (text ++ after) := by
    rw [trim, trimStart,
      List.dropWhile_append_of_pos fun c membership => isBlank_of_isSpace (leading c membership)]
    rfl
  rw [started]
  cases spells with
  | @array _ inside _ =>
      refine trim_append (List.cons_ne_nil _ _) ?_ ?_
        fun c membership => isBlank_of_isSpace (trailing c membership)
      · intro c isFirst
        cases isFirst
        decide
      · intro c isLast
        rw [← List.cons_append, List.getLast?_append] at isLast
        cases isLast
        decide

theorem readListing_of_spells (spells : Spells (.array items) text) (leading : IsSpaces before)
    (trailing : IsSpaces after) :
    readListing (String.ofList (before ++ (text ++ after))) =
      (items.mapM Listing.ofJson?).map fun listings => listings.filterMap Listing.candidate? := by
  have read := read?_of_spells spells leading trailing
  unfold readListing
  dsimp only
  rw [String.toList_ofList, trim_array spells leading trailing]
  split
  case isTrue short =>
    -- A list that is written with its brackets alone is empty.
    have brackets : text = ['[', ']'] := by
      cases spells
      simpa using short
    have bare := read?_of_spells spells isSpaces_nil isSpaces_nil
    rw [brackets] at bare
    cases bare
    rfl
  case isFalse =>
    rw [Listing.read?, read]

/-- What is taken from a listing, however it is written. Of entries whose members have readable
names exactly those with two readable dates are taken, in their order and unchanged otherwise. One
item that spoils the listing, whatever the others are, leaves nothing at all. -/
theorem readListing_exact (spells : Spells (.array items) text) (leading : IsSpaces before)
    (trailing : IsSpaces after) :
    (∀ listings, List.Forall₂ Renders listings items → (∀ item ∈ items, item.HasNames) →
      ∃ candidates, readListing (String.ofList (before ++ (text ++ after))) = some candidates ∧
        Kept listings candidates) ∧
    ((∃ item ∈ items, Spoils item) →
      readListing (String.ofList (before ++ (text ++ after))) = none) := by
  rw [readListing_of_spells spells leading trailing]
  constructor
  · intro listings rendered named
    rw [mapM_ofJson?_of_renders rendered named]
    exact ⟨_, rfl, kept_filterMap listings⟩
  · rintro ⟨item, membership, spoils⟩
    obtain ⟨itemText, spelled⟩ := spells.exists_of_item membership
    rw [mapM_eq_none_of_mem membership (ofJson?_of_spoils spelled spoils)]
    rfl

/-- The members of an entry with two dates, in another order than usual, with an unknown one and
a text that is null. -/
def sampleMembers : List (Option String × Json) :=
  [(some "not_after", .ofText "2024-02-01 00:00:00"), (some "logs", .array [.null]),
    (some "id", .ofInt 7), (some "issuer_name", .null),
    (some "not_before", .ofText "2024-01-01T00:00:00")]

/-- The members of an entry without dates. -/
def otherMembers : List (Option String × Json) :=
  [(some "id", .ofInt (-9223372036854775808)), (some "common_name", .ofText "a\n")]

def sampleItems : List Json :=
  [.object sampleMembers, .object otherMembers]

def sampleListings : List Listing :=
  [⟨7, none, none, some "2024-01-01T00:00:00", some "2024-02-01 00:00:00", none⟩,
    ⟨-9223372036854775808, none, some "a\n", none, none, none⟩]

theorem isPrintable_sampleItems : ∀ item ∈ sampleItems ++ [.ofInt 7], item.IsPrintable := by
  have text : ∀ text, IsPrintable (.ofText text) := fun text => .string rfl
  have number : ∀ n, IsPrintable (.ofInt n) := fun n => .number (isNumber_toString n)
  have null : IsPrintable .null := .null trivial
  have list : IsPrintable (.array [.null]) := .array trivial (List.forall_mem_singleton.mpr null)
  have object : ∀ members : List (Option String × Json),
      (∀ member ∈ members, member.1.isSome = true) → (∀ member ∈ members, member.2.IsPrintable) →
      IsPrintable (.object members) := fun members named values => .object named values
  intro item membership
  simp only [sampleItems, List.cons_append, List.nil_append, List.mem_cons, List.not_mem_nil,
    or_false] at membership
  rcases membership with rfl | rfl | rfl
  · exact object _ (by decide) (by simp [sampleMembers, text, number, null, list])
  · exact object _ (by decide) (by simp [otherMembers, text, number])
  · exact number 7

theorem hasNames_sampleItems : ∀ item ∈ sampleItems, item.HasNames := by
  have first : ∀ member ∈ sampleMembers, member.1 ≠ none := by decide
  have second : ∀ member ∈ otherMembers, member.1 ≠ none := by decide
  exact List.forall_mem_cons.mpr ⟨first, List.forall_mem_singleton.mpr second⟩

theorem renders_sampleItems : List.Forall₂ Renders sampleListings sampleItems := by
  refine .cons ⟨sampleMembers, rfl, ?_⟩ (.cons ⟨otherMembers, rfl, ?_⟩ .nil)
  · exact ⟨rfl, ⟨by decide, by decide⟩, .null, .missing, .given, .given, .missing⟩
  · exact ⟨rfl, ⟨by decide, by decide⟩, .missing, .given, .missing, .missing, .missing⟩

/-- From the sample one candidate is taken, and none as soon as another item is a number. -/
theorem readListing_exact_sample :
    (∃ candidates, readListing (Json.array sampleItems).print = some candidates ∧
      Kept sampleListings candidates) ∧
    readListing (Json.array (sampleItems ++ [.ofInt 7])).print = none := by
  have printable : IsPrintable (.array sampleItems) :=
    .array trivial fun item membership =>
      isPrintable_sampleItems item (List.mem_append_left _ membership)
  have whole := (readListing_exact (spells_print printable) isSpaces_nil isSpaces_nil).1
    sampleListings renders_sampleItems hasNames_sampleItems
  have number : Spoils (.ofInt 7) := .plain (by simp [Json.ofInt]) (by simp [Json.ofInt])
  have spoilt := (readListing_exact (spells_print (.array trivial isPrintable_sampleItems))
    isSpaces_nil isSpaces_nil).2 ⟨.ofInt 7, List.mem_append_right _ List.mem_cons_self, number⟩
  have bare : ∀ text : String, String.ofList ([] ++ (text.toList ++ [])) = text := by
    intro text
    rw [List.nil_append, List.append_nil, String.ofList_toList]
  rw [bare] at whole spoilt
  exact ⟨whole, spoilt⟩

/-- An entry with two readable dates, among whose members is one with an unknown name that is
half of a surrogate pair. -/
def surrogateText : String :=
  "[\x7b\"id\":1,\"\\ud800\":0,\"not_before\":\"2024-01-01T00:00:00\"," ++
    "\"not_after\":\"2024-02-01T00:00:00\"\x7d]"

def surrogateMembers : List (Option String × Json) :=
  [(some "id", .ofInt 1), (none, .ofInt 0), (some "not_before", .ofText "2024-01-01T00:00:00"),
    (some "not_after", .ofText "2024-02-01T00:00:00")]

def surrogateListing : Listing :=
  ⟨1, none, none, some "2024-01-01T00:00:00", some "2024-02-01T00:00:00", none⟩

theorem spells_surrogateText :
    Spells (.array [.object surrogateMembers]) surrogateText.toList := by
  have unit : SpellsPiece (.unit 0xd800) ['\\', 'u', 'd', '8', '0', '0'] := .code (by decide)
  have half : SpellsString none ['"', '\\', 'u', 'd', '8', '0', '0', '"'] :=
    .quoted (.next unit .done)
  have member : ∀ {key name value text}, SpellsString key name → Spells value text →
      Labelled Spells (key, value) (name ++ ([] ++ ':' :: ([] ++ text))) :=
    fun spelledName spelled => .member spelledName isSpaces_nil isSpaces_nil spelled
  have number : ∀ n : Int, Spells (.ofInt n) (toString n).toList := fun n =>
    .number (isNumber_toString n)
  have date : ∀ name text : String, Labelled Spells (some name, .ofText text) _ :=
    fun name text => member (spellsString_quote name) (.string (spellsString_quote text))
  have members : Spells (.object surrogateMembers) _ :=
    .object (.some (.next isSpaces_nil (member (spellsString_quote "id") (number 1)) isSpaces_nil
      (.next isSpaces_nil (member half (number 0)) isSpaces_nil
        (.next isSpaces_nil (date "not_before" _) isSpaces_nil
          (.last isSpaces_nil (date "not_after" _) isSpaces_nil)))))
  have whole := Spells.array (.some (.last isSpaces_nil members isSpaces_nil))
  refine cast (congrArg (Spells _) ?_) whole
  decide +kernel

/-- The text renders an entry with two readable dates, and nothing is taken from it. -/
theorem surrogateText_unread :
    Spells (.array [.object surrogateMembers]) surrogateText.toList ∧
      Renders surrogateListing (.object surrogateMembers) ∧
      (∃ candidate, Becomes surrogateListing candidate) ∧ readListing surrogateText = none := by
  obtain ⟨candidate, taken⟩ := Option.isSome_iff_exists.mp
    (show (candidate? surrogateListing).isSome = true by decide +kernel)
  refine ⟨spells_surrogateText, ⟨surrogateMembers, rfl, ?_⟩,
    ⟨candidate, candidate?_eq_some_iff.mp taken⟩, by decide +kernel⟩
  exact ⟨rfl, ⟨by decide, by decide⟩, .missing, .missing, .given, .given, .missing⟩

end CertificateAudit.Candidate
