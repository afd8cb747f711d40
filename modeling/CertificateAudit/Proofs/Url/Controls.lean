import CertificateAudit.Proofs.Text.Decimal
import CertificateAudit.Proofs.Text.Pieces
import CertificateAudit.Url.Basic

/-!
URLs in their normal form hold no control characters. Each part is escaped or checked when it is
read, so this holds of every URL that is read and of every URL that another one refers to,
whatever the texts (`isPlain_read?`, `IsPlain.follow?`); a written URL therefore stays on one
line.
-/

namespace CertificateAudit.Url

open CertificateAudit.Text

/-- A text without any of the characters in front of the space. -/
def HasNoControls (text : List Char) : Prop :=
  ∀ c ∈ text, ' ' ≤ c

instance (text : List Char) : Decidable (HasNoControls text) :=
  List.decidableBAll _ text

theorem hasNoControls_nil : HasNoControls [] :=
  fun _ membership => absurd membership List.not_mem_nil

theorem hasNoControls_cons_iff {c : Char} {text : List Char} :
    HasNoControls (c :: text) ↔ ' ' ≤ c ∧ HasNoControls text :=
  List.forall_mem_cons

theorem hasNoControls_append_iff {front back : List Char} :
    HasNoControls (front ++ back) ↔ HasNoControls front ∧ HasNoControls back :=
  List.forall_mem_append

theorem HasNoControls.lineFeed_not_mem {text : List Char} (plain : HasNoControls text) :
    '\n' ∉ text :=
  fun membership => absurd (plain '\n' membership) (by decide)

theorem hasNoControls_joinWith {separator : String} {pieces : List String}
    (plainSeparator : HasNoControls separator.toList)
    (plainPieces : ∀ piece ∈ pieces, HasNoControls piece.toList) :
    HasNoControls (joinWith separator pieces).toList := by
  intro c membership
  refine Char.not_lt.mp fun control => not_mem_joinWith ?_ ?_ membership
  · exact fun inside => Char.not_lt.mpr (plainSeparator c inside) control
  · exact fun piece isPiece inside =>
      Char.not_lt.mpr (plainPieces piece isPiece c inside) control

/-- Digits of all bases up to the hexadecimal one stand behind the space. -/
theorem hasNoControls_toDigits {base : Nat} (proper : 1 < base) (usual : base ≤ 16) (n : Nat) :
    HasNoControls (Nat.toDigits base n) := by
  have plainDigit : ∀ digit < 16, ' ' ≤ Nat.digitChar digit := by decide
  have positive : 0 < base := Nat.lt_of_succ_lt proper
  induction n using Nat.strongRecOn with
  | ind n inductionHypothesis =>
      by_cases single : n < base
      · rw [Nat.toDigits_of_lt_base single, hasNoControls_cons_iff]
        exact ⟨plainDigit n (Nat.lt_of_lt_of_le single usual), hasNoControls_nil⟩
      · have long : base ≤ n := Nat.le_of_not_lt single
        rw [Nat.toDigits_of_base_le proper long, hasNoControls_append_iff, hasNoControls_cons_iff]
        have smaller : n / base < n := Nat.div_lt_self (Nat.lt_of_lt_of_le positive long) proper
        refine ⟨inductionHypothesis _ smaller, ?_, hasNoControls_nil⟩
        exact plainDigit _ (Nat.lt_of_lt_of_le (Nat.mod_lt n positive) usual)

theorem hasNoControls_toString (n : Nat) : HasNoControls (toString n).toList := by
  have digits := hasNoControls_toDigits (by decide : 1 < 10) (by decide) n
  rwa [Nat.toString_eq_repr, Nat.toList_repr]

/-! Escapes. -/

theorem hasNoControls_upper (bytes : List UInt8) : HasNoControls (Hex.upper bytes) := by
  have plainDigit (i : Nat) : ' ' ≤ Hex.upperDigits.getD i '0' := by
    have plainDigits : HasNoControls Hex.upperDigits := by decide +kernel
    rw [List.getD_eq_getElem?_getD]
    cases digit : Hex.upperDigits[i]? with
    | none => decide
    | some c => exact plainDigits c (List.mem_of_getElem? digit)
  intro c membership
  obtain ⟨b, _, inside⟩ := List.mem_flatMap.mp membership
  simp only [Hex.digitsOf, List.mem_cons, List.not_mem_nil, or_false] at inside
  rcases inside with rfl | rfl
  · exact plainDigit _
  · exact plainDigit _

/-- What escapes all control characters leaves none. -/
theorem hasNoControls_escape {picked : Char → Bool}
    (covers : ∀ c, isControlOrWide c = true → picked c = true) (text : List Char) :
    HasNoControls (escape picked text) := by
  intro c membership
  obtain ⟨d, _, inside⟩ := List.mem_flatMap.mp membership
  split at inside
  case isTrue =>
    obtain ⟨b, _, inside⟩ := List.mem_flatMap.mp inside
    exact hasNoControls_cons_iff.mpr ⟨by decide, hasNoControls_upper [b]⟩ c inside
  case isFalse kept =>
    rw [List.mem_singleton.mp inside]
    refine Char.not_lt.mp fun control => kept (covers d ?_)
    rw [isControlOrWide, decide_eq_true control, Bool.true_or]

theorem hasNoControls_map_escape {picked : Char → Bool}
    (covers : ∀ c, isControlOrWide c = true → picked c = true) (part : Option (List Char)) :
    ∀ written ∈ part.map (escape picked), HasNoControls written := by
  intro written membership
  obtain ⟨text, _, rfl⟩ := Option.map_eq_some_iff.mp membership
  exact hasNoControls_escape covers text

section Covers

variable {c : Char} (wide : isControlOrWide c = true)
include wide

theorem escapedInFragment_of_isControlOrWide : escapedInFragment c = true := by
  rw [escapedInFragment, wide, Bool.true_or]

theorem escapedInPath_of_isControlOrWide : escapedInPath c = true := by
  rw [escapedInPath, escapedInFragment_of_isControlOrWide wide, Bool.true_or]

theorem escapedInUser_of_isControlOrWide : escapedInUser c = true := by
  rw [escapedInUser, escapedInPath_of_isControlOrWide wide, Bool.true_or]

theorem escapedInQuery_of_isControlOrWide (special : Bool) : escapedInQuery special c = true := by
  rw [escapedInQuery, wide, Bool.true_or, Bool.true_or]

end Covers

/-! Hosts and schemes. -/

theorem hasNoControls_writeAddress4 (address : Nat) : HasNoControls (writeAddress4 address) := by
  refine hasNoControls_joinWith (by decide) ?_
  intro piece membership
  obtain ⟨shift, _, rfl⟩ := List.mem_map.mp membership
  exact hasNoControls_toString _

theorem hasNoControls_writeAddress6 (groups : List Nat) :
    HasNoControls (writeAddress6 groups) := by
  have plainGroups (groups : List Nat) : HasNoControls (joinWith ":"
      (groups.map fun group => String.ofList (Nat.toDigits 16 group))).toList := by
    refine hasNoControls_joinWith (by decide) ?_
    intro piece membership
    obtain ⟨group, _, rfl⟩ := List.mem_map.mp membership
    rw [String.toList_ofList]
    exact hasNoControls_toDigits (by decide) (by decide) group
  unfold writeAddress6
  dsimp only
  split
  case isTrue => exact plainGroups groups
  case isFalse =>
    rw [String.toList_append, String.toList_append, hasNoControls_append_iff,
      hasNoControls_append_iff]
    exact ⟨⟨plainGroups _, by decide⟩, plainGroups _⟩

section Hosts

variable {text host : List Char}

theorem hasNoControls_bracketedHost? (read : bracketedHost? text = some host) :
    HasNoControls host := by
  unfold bracketedHost? at read
  split at read
  · split at read
    · obtain ⟨groups, _, rfl⟩ := Option.map_eq_some_iff.mp read
      rw [hasNoControls_append_iff, hasNoControls_cons_iff]
      exact ⟨⟨by decide, hasNoControls_writeAddress6 groups⟩, by decide⟩
    · cases read
  · cases read

/-- A domain name is refused if it holds a control character once its escapes are undone. -/
theorem hasNoControls_webHost? (read : webHost? text = some host) : HasNoControls host := by
  unfold webHost? at read
  split at read
  case isTrue => exact hasNoControls_bracketedHost? read
  case isFalse =>
    dsimp only at read
    split at read
    case isTrue => cases read
    case isFalse proper =>
      split at read
      case isTrue =>
        obtain ⟨address, _, rfl⟩ := Option.map_eq_some_iff.mp read
        exact hasNoControls_writeAddress4 address
      case isFalse =>
        cases read
        intro c membership
        refine Char.not_lt.mp fun control => proper ?_
        rw [Bool.or_eq_true, List.any_eq_true]
        refine .inr ⟨c, membership, ?_⟩
        have low : c ≤ ' ' := (Char.le_total c ' ').resolve_right (Char.not_le.mpr control)
        rw [isForbiddenInDomain, decide_eq_true low, Bool.true_or, Bool.true_or]

theorem hasNoControls_plainHost? (read : plainHost? text = some host) : HasNoControls host := by
  unfold plainHost? at read
  split at read
  case isTrue => exact hasNoControls_bracketedHost? read
  case isFalse =>
    split at read
    case isTrue => cases read
    case isFalse =>
      cases read
      exact hasNoControls_escape (fun _ wide => wide) text

end Hosts

theorem space_le_toLower {c : Char} (plain : ' ' ≤ c) : ' ' ≤ c.toLower := by
  unfold Char.toLower
  split
  case isTrue upper =>
    simp only [ge_iff_le, Char.le_def, UInt32.le_iff_toNat_le, UInt32.toNat_add] at upper plain ⊢
    simp at upper plain ⊢
    omega
  case isFalse => exact plain

theorem hasNoControls_readScheme? {text scheme behind : List Char}
    (read : readScheme? text = some (scheme, behind)) : HasNoControls scheme := by
  have plainLetter {c : Char} (letter : isAsciiLetter c = true) : ' ' ≤ c := by
    simp [isAsciiLetter, Char.le_def, UInt32.le_iff_toNat_le] at letter ⊢
    omega
  have plainOther {c : Char} (other : (isAsciiLetter c || Decimal.isDigit c || c == '+' ||
      c == '-' || c == '.') = true) : ' ' ≤ c := by
    simp only [Bool.or_eq_true, beq_iff_eq] at other
    rcases other with (((letter | digit) | rfl) | rfl) | rfl
    · exact plainLetter letter
    · have value := Decimal.toNat_of_isDigit digit
      rw [Char.le_def, UInt32.le_iff_toNat_le]
      exact Nat.le_trans (by decide) value.1
    · decide
    · decide
    · decide
  unfold readScheme? at read
  split at read
  · cases read
  · next c rest =>
      dsimp only at read
      split at read
      · split at read
        case isTrue letter =>
          cases read
          intro lower membership
          obtain ⟨d, isWritten, rfl⟩ := List.mem_map.mp membership
          refine space_le_toLower ?_
          rcases List.mem_cons.mp isWritten with rfl | inside
          · exact plainLetter letter
          · exact plainOther (List.all_eq_true.mp List.all_takeWhile d inside)
        case isFalse => cases read
      · cases read

/-! Whole URLs. -/

structure Authority.IsPlain (authority : Authority) : Prop where
  user : HasNoControls authority.user
  password : ∀ password ∈ authority.password, HasNoControls password
  host : HasNoControls authority.host

def Path.IsPlain : Path → Prop
  | .segments names => ∀ name ∈ names, HasNoControls name
  | .plain text => HasNoControls text

/-- No part of the URL holds a control character. -/
structure IsPlain (url : Url) : Prop where
  scheme : HasNoControls url.scheme
  authority : ∀ authority ∈ url.authority, authority.IsPlain
  path : url.path.IsPlain
  query : ∀ query ∈ url.query, HasNoControls query
  fragment : ∀ fragment ∈ url.fragment, HasNoControls fragment

theorem hasNoControls_resolveSegments {before names : List (List Char)}
    (plain : ∀ name ∈ before, HasNoControls name) :
    ∀ name ∈ resolveSegments before names, HasNoControls name := by
  have withEmpty {before : List (List Char)} (plain : ∀ name ∈ before, HasNoControls name)
      (ends : Bool) : ∀ name ∈ (if ends then [] :: before else before), HasNoControls name := by
    cases ends with
    | false => exact plain
    | true => exact List.forall_mem_cons.mpr ⟨hasNoControls_nil, plain⟩
  fun_induction resolveSegments before names with
  | case1 before => exact fun name membership => plain name (List.mem_reverse.mp membership)
  | case2 before segment rest double inductionHypothesis =>
      refine inductionHypothesis (withEmpty ?_ rest.isEmpty)
      exact fun name membership => plain name (List.mem_of_mem_drop membership)
  | case3 before segment rest double single inductionHypothesis =>
      exact inductionHypothesis (withEmpty plain rest.isEmpty)
  | case4 before segment rest double single inductionHypothesis =>
      refine inductionHypothesis ?_
      rw [List.forall_mem_cons]
      exact ⟨hasNoControls_escape (fun _ => escapedInPath_of_isControlOrWide) segment, plain⟩

theorem Path.isPlain_rootedPath (special : Bool) (text : List Char) :
    (rootedPath special text).IsPlain :=
  hasNoControls_resolveSegments fun _ membership => absurd membership List.not_mem_nil

theorem Path.IsPlain.parent {path : Path} (plain : path.IsPlain) :
    ∀ name ∈ path.parent, HasNoControls name := by
  cases path with
  | segments names =>
      intro name membership
      exact plain name (List.mem_reverse.mp (List.mem_of_mem_drop membership))
  | plain text => exact fun name membership => absurd membership List.not_mem_nil

theorem Authority.isPlain_of_readAuthority? {scheme text : List Char} {authority : Authority}
    (read : readAuthority? scheme text = some authority) : authority.IsPlain := by
  have plainUser (text : List Char) : HasNoControls (escape escapedInUser text) :=
    hasNoControls_escape (fun _ => escapedInUser_of_isControlOrWide) text
  unfold readAuthority? at read
  dsimp only at read
  split at read
  all_goals
    obtain ⟨host, isHost, read⟩ := Option.bind_eq_some_iff.mp read
    obtain ⟨port, _, read⟩ := Option.bind_eq_some_iff.mp read
    cases read
    refine ⟨plainUser _, fun password membership => ?_, ?_⟩
    · dsimp only at membership
      split at membership
      · cases membership
        exact plainUser _
      · cases membership
  · exact hasNoControls_webHost? isHost
  · exact hasNoControls_plainHost? isHost

theorem IsPlain.assemble {scheme : List Char} {authority : Option Authority} {path : Path}
    (plainScheme : HasNoControls scheme) (plainAuthority : ∀ a ∈ authority, a.IsPlain)
    (plainPath : path.IsPlain) (query fragment : Option (List Char)) :
    (assemble scheme authority path query fragment).IsPlain where
  scheme := plainScheme
  authority := plainAuthority
  path := plainPath
  query := hasNoControls_map_escape (fun _ wide => escapedInQuery_of_isControlOrWide wide _) query
  fragment := hasNoControls_map_escape (fun _ => escapedInFragment_of_isControlOrWide) fragment

section Readers

variable {scheme text : List Char} {url : Url}

theorem isPlain_readBehindSlashes? (plainScheme : HasNoControls scheme)
    (read : readBehindSlashes? scheme text = some url) : url.IsPlain := by
  unfold readBehindSlashes? at read
  dsimp only at read
  obtain ⟨authority, given, read⟩ := Option.bind_eq_some_iff.mp read
  cases read
  refine .assemble plainScheme ?_ ?_ _ _
  · rintro _ ⟨⟩
    exact Authority.isPlain_of_readAuthority? given
  · split
    · exact fun _ membership => absurd membership List.not_mem_nil
    · exact Path.isPlain_rootedPath _ _

theorem isPlain_readFile? (read : readFile? text = some url) : url.IsPlain := by
  have plainFile {host : List Char} (plain : HasNoControls host) (path : List Char)
      (query fragment : Option (List Char)) : (Url.assemble "file".toList
        (some ⟨[], none, if host = "localhost".toList then [] else host, none⟩)
        (rootedPath true path) query fragment).IsPlain := by
    refine .assemble (by decide) ?_ (Path.isPlain_rootedPath _ _) query fragment
    rintro _ ⟨⟩
    refine ⟨hasNoControls_nil, nofun, ?_⟩
    dsimp only
    split
    · exact hasNoControls_nil
    · exact plain
  unfold readFile? at read
  dsimp only at read
  rcases ite_eq_iff.mp read with ⟨_, read⟩ | ⟨_, read⟩
  · cases read
    exact plainFile hasNoControls_nil _ _ _
  · obtain ⟨host, isHost, read⟩ := Option.bind_eq_some_iff.mp read
    cases read
    exact plainFile (hasNoControls_webHost? isHost) _ _ _

theorem isPlain_readOther? (plainScheme : HasNoControls scheme)
    (read : readOther? scheme text = some url) : url.IsPlain := by
  unfold readOther? at read
  split at read
  · exact isPlain_readBehindSlashes? plainScheme read
  · split at read
    next path query fragment _ =>
      cases read
      have noAuthority : ∀ authority ∈ (none : Option Authority), authority.IsPlain :=
        fun authority membership => absurd membership (Option.not_mem_none authority)
      refine .assemble plainScheme noAuthority ?_ query fragment
      split
      · exact Path.isPlain_rootedPath _ _
      · exact hasNoControls_escape (fun _ wide => wide) path

theorem isPlain_readBehindScheme? (plainScheme : HasNoControls scheme)
    (read : readBehindScheme? scheme text = some url) : url.IsPlain := by
  unfold readBehindScheme? at read
  split at read
  · exact isPlain_readBehindSlashes? plainScheme read
  · split at read
    · exact isPlain_readFile? read
    · exact isPlain_readOther? plainScheme read

theorem isPlain_readRelative? {base : Url} (plain : base.IsPlain)
    (read : readRelative? base text = some url) : url.IsPlain := by
  have plainQuery := hasNoControls_map_escape
    fun _ wide => escapedInQuery_of_isControlOrWide wide true
  have plainFragment := hasNoControls_map_escape fun _ => escapedInFragment_of_isControlOrWide
  unfold readRelative? at read
  dsimp only at read
  split at read
  · cases read
    exact { plain with fragment := plainFragment none }
  · next rest =>
      cases read
      exact { plain with fragment := plainFragment (some rest) }
  · cases read
    exact { plain with query := plainQuery _, fragment := plainFragment _ }
  · split at read
    · exact isPlain_readBehindSlashes? plain.scheme read
    · cases read
      refine { plain with path := ?_, query := plainQuery _, fragment := plainFragment _ }
      dsimp only
      split
      · exact Path.isPlain_rootedPath _ _
      · exact hasNoControls_resolveSegments plain.path.parent

end Readers

theorem isPlain_read? {text : String} {url : Url} (read : read? text = some url) :
    url.IsPlain := by
  obtain ⟨⟨scheme, rest⟩, split, read⟩ := Option.bind_eq_some_iff.mp read
  exact isPlain_readBehindScheme? (hasNoControls_readScheme? split) read

theorem IsPlain.follow? {base url : Url} {text : String} (plain : base.IsPlain)
    (read : base.follow? text = some url) : url.IsPlain := by
  unfold Url.follow? at read
  dsimp only at read
  split at read
  · exact isPlain_readRelative? plain read
  · next scheme rest cut =>
      split at read
      · exact isPlain_readRelative? plain read
      · exact isPlain_readBehindScheme? (hasNoControls_readScheme? cut) read

theorem IsPlain.anonymous {url : Url} (plain : url.IsPlain) : url.anonymous.IsPlain where
  scheme := plain.scheme
  authority := by
    intro named membership
    obtain ⟨authority, given, rfl⟩ := Option.map_eq_some_iff.mp membership
    exact ⟨hasNoControls_nil, nofun, (plain.authority authority given).host⟩
  path := plain.path
  query := plain.query
  fragment := plain.fragment

theorem hasNoControls_marked (mark : Char) (plainMark : ' ' ≤ mark) (part : Option (List Char)) :
    (∀ text ∈ part, HasNoControls text) →
      HasNoControls (match part with
        | some text => mark :: text
        | none => []) := by
  intro plain
  cases part with
  | none => exact hasNoControls_nil
  | some text => exact hasNoControls_cons_iff.mpr ⟨plainMark, plain text rfl⟩

theorem Authority.IsPlain.chars {authority : Authority} (plain : authority.IsPlain) :
    HasNoControls authority.chars := by
  have plainUser {user : List Char} (plain : HasNoControls user) :
      HasNoControls (if user.isEmpty then [] else user ++ ['@']) := by
    split
    · exact hasNoControls_nil
    · exact hasNoControls_append_iff.mpr ⟨plain, by decide⟩
  unfold Authority.chars
  dsimp only
  rw [hasNoControls_append_iff, hasNoControls_append_iff]
  refine ⟨⟨plainUser (hasNoControls_append_iff.mpr ⟨plain.user, ?_⟩), plain.host⟩, ?_⟩
  · exact hasNoControls_marked ':' (by decide) _ plain.password
  · split
    · next port _ =>
        rw [hasNoControls_cons_iff]
        exact ⟨by decide, hasNoControls_toDigits (by decide) (by decide) port⟩
    · exact hasNoControls_nil

theorem Path.IsPlain.chars {path : Path} (plain : path.IsPlain) : HasNoControls path.chars := by
  cases path with
  | plain text => exact plain
  | segments names =>
      intro c membership
      obtain ⟨name, isName, inside⟩ := List.mem_flatMap.mp membership
      exact hasNoControls_cons_iff.mpr ⟨by decide, plain name isName⟩ c inside

/-- The normal form of a URL is written without control characters. -/
theorem IsPlain.text {url : Url} (plain : url.IsPlain) : HasNoControls url.text.toList := by
  rw [Url.text, String.toList_ofList, hasNoControls_append_iff, charsWithoutFragment,
    hasNoControls_append_iff, hasNoControls_append_iff, hasNoControls_append_iff,
    hasNoControls_cons_iff]
  refine ⟨⟨⟨⟨plain.scheme, by decide, ?_⟩, plain.path.chars⟩, ?_⟩, ?_⟩
  · split
    · next authority given =>
        rw [hasNoControls_cons_iff, hasNoControls_cons_iff]
        exact ⟨by decide, by decide, (plain.authority authority given).chars⟩
    · split
      · decide
      · exact hasNoControls_nil
  · exact hasNoControls_marked '?' (by decide) _ plain.query
  · exact hasNoControls_marked '#' (by decide) _ plain.fragment

end CertificateAudit.Url
