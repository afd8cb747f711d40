import CertificateAudit.Url.Host

/-!
URLs in their normal form. `Url.read?` reads a URL that stands alone, `Url.follow?` one that
may be relative to another, and `Url.text` writes the normal form.
-/

namespace CertificateAudit

open CertificateAudit.Text

structure Url.Authority where
  user : List Char
  password : Option (List Char)
  host : List Char
  port : Option Nat
deriving DecidableEq

/-- The path of a URL: segments behind slashes, or a text without structure. -/
inductive Url.Path where
  | segments (names : List (List Char))
  | plain (text : List Char)
deriving DecidableEq

structure Url where
  scheme : List Char
  authority : Option Url.Authority
  path : Url.Path
  query : Option (List Char)
  fragment : Option (List Char)
deriving DecidableEq

namespace Url

/-- The port of a scheme that always has a host; other schemes have none. -/
def webPort? (scheme : List Char) : Option Nat :=
  if scheme = "http".toList ∨ scheme = "ws".toList then some 80
  else if scheme = "https".toList ∨ scheme = "wss".toList then some 443
  else if scheme = "ftp".toList then some 21
  else none

def isFile (scheme : List Char) : Bool :=
  scheme == "file".toList

/-- Schemes whose paths have a structure and may use backslashes. -/
def isSpecial (scheme : List Char) : Bool :=
  (webPort? scheme).isSome || isFile scheme

def isAsciiLetter (c : Char) : Bool :=
  ('a' ≤ c && c ≤ 'z') || ('A' ≤ c && c ≤ 'Z')

def readScheme? : List Char → Option (List Char × List Char)
  | [] => none
  | c :: rest =>
      let scheme := rest.takeWhile fun c =>
        isAsciiLetter c || Decimal.isDigit c || c == '+' || c == '-' || c == '.'
      match rest.drop scheme.length with
      | ':' :: behind =>
          if isAsciiLetter c then some ((c :: scheme).map Char.toLower, behind) else none
      | _ => none

/-- The text without blanks and control characters at its ends and without tabs and line
breaks inside. -/
def clean (text : List Char) : List Char :=
  let atEnds := fun c : Char => c ≤ ' '
  (dropEndWhile atEnds (text.dropWhile atEnds)).filter fun c =>
    c != '\t' && c != '\n' && c != '\r'

def isSlash (special : Bool) (c : Char) : Bool :=
  c == '/' || (special && c == '\\')

/-- Cut at the first character that passes the test; it stays with the second part. -/
def cutBefore (test : Char → Bool) (text : List Char) : List Char × List Char :=
  text.span fun c => !test c

def cutTail (text : List Char) : List Char × Option (List Char) × Option (List Char) :=
  let (front, fragment) := match cutBefore (· == '#') text with
    | (front, _ :: fragment) => (front, some fragment)
    | (front, []) => (front, none)
  match cutBefore (· == '?') front with
  | (path, _ :: query) => (path, some query, fragment)
  | (path, []) => (path, none, fragment)

def isSingleDot (segment : List Char) : Bool :=
  segment == ['.'] || segment.map Char.toLower == ['%', '2', 'e']

def isDoubleDot (segment : List Char) : Bool :=
  let dots := ["..", ".%2e", "%2e.", "%2e%2e"].map String.toList
  dots.contains (segment.map Char.toLower)

/-- Resolve the segments of a path on top of those in front of it, held last first. A dot
segment at the end leaves an empty segment. -/
def resolveSegments : (before : List (List Char)) → List (List Char) → List (List Char)
  | before, [] => before.reverse
  | before, segment :: rest =>
      if isDoubleDot segment then
        resolveSegments (if rest.isEmpty then [] :: before.drop 1 else before.drop 1) rest
      else if isSingleDot segment then
        resolveSegments (if rest.isEmpty then [] :: before else before) rest
      else resolveSegments (escape escapedInPath segment :: before) rest

def splitPath (special : Bool) (path : List Char) : List (List Char) :=
  splitOn '/' (path.map fun c => if isSlash special c then '/' else c)

def rootedPath (special : Bool) (path : List Char) : Path :=
  let behind := match path with
    | c :: rest => if isSlash special c then rest else path
    | [] => []
  .segments (resolveSegments [] (splitPath special behind))

/-- Read a port; the port of the scheme is left out. -/
def readPort? (scheme text : List Char) : Option (Option Nat) :=
  if text.isEmpty then some none
  else if text.all Decimal.isDigit && Decimal.value text ≤ 65535 then
    if webPort? scheme = some (Decimal.value text) then some none
    else some (some (Decimal.value text))
  else none

/-- Cut a host from its port at the first colon outside brackets. -/
def cutPort : (inside : Bool) → List Char → List Char × Option (List Char)
  | _, [] => ([], none)
  | inside, c :: rest =>
      if c = ':' ∧ inside = false then ([], some rest)
      else
        let inside := if c = '[' then true else if c = ']' then false else inside
        let (host, port) := cutPort inside rest
        (c :: host, port)

def cutAtLast? (c : Char) (text : List Char) : Option (List Char × List Char) :=
  if text.contains c then
    let back := (text.reverse.takeWhile (· != c)).reverse
    some (text.take (text.length - back.length - 1), back)
  else none

/-- Read an authority. A web scheme needs a host. -/
def readAuthority? (scheme text : List Char) : Option Authority := do
  let (user, password, hostAndPort) := match cutAtLast? '@' text with
    | none => ([], none, text)
    | some (userInfo, hostAndPort) =>
        match cutBefore (· == ':') userInfo with
        | (user, _ :: password) => (user, some password, hostAndPort)
        | (user, []) => (user, none, hostAndPort)
  let (host, port) := cutPort false hostAndPort
  let host ← if (webPort? scheme).isSome then webHost? host else plainHost? host
  let port ← readPort? scheme (port.getD [])
  pure {
    user := escape escapedInUser user
    password := match password with
      | some (c :: rest) => some (escape escapedInUser (c :: rest))
      | _ => none
    host
    port }

def assemble (scheme : List Char) (authority : Option Authority) (path : Path)
    (query fragment : Option (List Char)) : Url :=
  { scheme
    authority
    path
    query := query.map (escape (escapedInQuery (isSpecial scheme)))
    fragment := fragment.map (escape escapedInFragment) }

def readBehindSlashes? (scheme text : List Char) : Option Url := do
  let special := isSpecial scheme
  let (authority, rest) := cutBefore
    (fun c => isSlash special c || c == '?' || c == '#') text
  let authority ← readAuthority? scheme authority
  let (path, query, fragment) := cutTail rest
  let path := if path.isEmpty && !special then Path.segments [] else rootedPath special path
  pure (assemble scheme (some authority) path query fragment)

def readFile? (text : List Char) : Option Url := do
  let isSlash := isSlash true
  let (authority, rest) := match text with
    | a :: b :: rest =>
        if isSlash a && isSlash b then
          cutBefore (fun c => isSlash c || c == '?' || c == '#') rest
        else ([], text)
    | _ => ([], text)
  let host ← if authority.isEmpty then some [] else webHost? authority
  let host := if host = "localhost".toList then [] else host
  let (path, query, fragment) := cutTail rest
  pure (assemble "file".toList (some ⟨[], none, host, none⟩) (rootedPath true path) query fragment)

def readOther? (scheme text : List Char) : Option Url :=
  match text with
  | '/' :: '/' :: rest => readBehindSlashes? scheme rest
  | text =>
      let (path, query, fragment) := cutTail text
      let path := if path.head? = some '/' then rootedPath false path
        else .plain (escape isControlOrWide path)
      some (assemble scheme none path query fragment)

/-- Read a URL behind its scheme. Any number of slashes leads to the host of a web scheme. -/
def readBehindScheme? (scheme text : List Char) : Option Url :=
  if (webPort? scheme).isSome then readBehindSlashes? scheme (text.dropWhile (isSlash true))
  else if isFile scheme then readFile? text
  else readOther? scheme text

def read? (text : String) : Option Url := do
  let (scheme, rest) ← readScheme? (clean text.toList)
  readBehindScheme? scheme rest

def Path.parent : Path → List (List Char)
  | .segments names => names.reverse.drop 1
  | .plain _ => []

/-- Read a URL without a scheme relative to a URL of a web scheme. -/
def readRelative? (base : Url) (text : List Char) : Option Url :=
  let query := fun q : Option (List Char) => q.map (escape (escapedInQuery true))
  let fragment := fun f : Option (List Char) => f.map (escape escapedInFragment)
  match text with
  | [] => some { base with fragment := none }
  | '#' :: rest => some { base with fragment := fragment (some rest) }
  | '?' :: rest =>
      let (_, q, f) := cutTail ('?' :: rest)
      some { base with query := query q, fragment := fragment f }
  | a :: rest =>
      let slashes := ((a :: rest).takeWhile (isSlash true)).length
      if 2 ≤ slashes then
        readBehindSlashes? base.scheme ((a :: rest).dropWhile (isSlash true))
      else
        let (path, q, f) := cutTail (a :: rest)
        let path := if slashes = 1 then rootedPath true path
          else .segments (resolveSegments base.path.parent (splitPath true path))
        some { base with path, query := query q, fragment := fragment f }

def follow? (base : Url) (text : String) : Option Url :=
  let cleaned := clean text.toList
  match readScheme? cleaned with
  | none => readRelative? base cleaned
  | some (scheme, rest) =>
      if scheme = base.scheme ∧ (rest.takeWhile (isSlash true)).length < 2 then
        readRelative? base rest
      else readBehindScheme? scheme rest

def Authority.chars (authority : Authority) : List Char :=
  let password := match authority.password with
    | some password => ':' :: password
    | none => []
  let user := authority.user ++ password
  let port := match authority.port with
    | some port => ':' :: Nat.toDigits 10 port
    | none => []
  (if user.isEmpty then [] else user ++ ['@']) ++ authority.host ++ port

def Path.chars : Path → List Char
  | .segments names => names.flatMap ('/' :: ·)
  | .plain text => text

def charsWithoutFragment (url : Url) : List Char :=
  let authority := match url.authority with
    | some authority => '/' :: '/' :: authority.chars
    | none =>
        match url.path with
        | .segments ([] :: _ :: _) => ['/', '.']
        | _ => []
  let query := match url.query with
    | some query => '?' :: query
    | none => []
  url.scheme ++ ':' :: authority ++ url.path.chars ++ query

def text (url : Url) : String :=
  let fragment := match url.fragment with
    | some fragment => '#' :: fragment
    | none => []
  String.ofList (url.charsWithoutFragment ++ fragment)

def requestText (url : Url) : String :=
  String.ofList url.charsWithoutFragment

def anonymous (url : Url) : Url :=
  { url with authority := url.authority.map fun authority =>
      { authority with user := [], password := none } }

def hasHost (url : Url) : Bool :=
  match url.authority with
  | some authority => !authority.host.isEmpty
  | none => false

def isWeb (url : Url) : Bool :=
  url.scheme == "http".toList || url.scheme == "https".toList

end Url

end CertificateAudit
