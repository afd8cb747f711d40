import CertificateAudit.Text.Blank
import CertificateAudit.Text.Decimal
import CertificateAudit.Url.Escape
import CertificateAudit.Url.Punycode

/-!
Hosts in their normal form: domain names in lowercase ASCII, addresses of both versions in
their one spelling.
-/

namespace CertificateAudit.Url

open CertificateAudit.Text

/-- A number in decimal, in octal behind a zero, or in hexadecimal behind 0x. -/
def addressNumber? (part : List Char) : Option Nat :=
  let (base, digits) := match part with
    | '0' :: 'x' :: digits | '0' :: 'X' :: digits => (16, digits)
    | '0' :: d :: digits => (8, d :: digits)
    | digits => (10, digits)
  if part.isEmpty then none
  else
    let add := fun (n : Nat) (c : Char) => do
      let d ← Hex.digit? c
      if d < base then some (n * base + d) else none
    digits.foldlM add 0

def domainParts (domain : List Char) : List (List Char) :=
  let parts := splitOn '.' domain
  match parts.reverse with
  | [] :: before :: earlier => (before :: earlier).reverse
  | _ => parts

/-- Whether a domain name has to be read as an address: its last part is a number. -/
def endsInNumber (domain : List Char) : Bool :=
  match (domainParts domain).getLast? with
  | none => false
  | some last =>
      (!last.isEmpty && last.all Decimal.isDigit) ||
      (match last with
        | '0' :: x :: _ => (x == 'x' || x == 'X') && (addressNumber? last).isSome
        | _ => false)

/-- Read an address of version 4: up to four numbers, of which the last fills what is left. -/
def readAddress4 (domain : List Char) : Option Nat := do
  let numbers ← (domainParts domain).mapM addressNumber?
  let last ← numbers.getLast?
  let front := numbers.dropLast
  if 3 < front.length || front.any (255 < ·) || 1 <<< (8 * (4 - front.length)) ≤ last then none
  else
    let high := front.zipIdx.foldl (fun n (value, i) => n + value <<< (8 * (3 - i))) 0
    pure (high + last)

def writeAddress4 (address : Nat) : List Char :=
  (joinWith "." ([24, 16, 8, 0].map fun shift => toString (address >>> shift % 256))).toList

def readGroup? (part : List Char) : Option Nat :=
  if part.isEmpty || 4 < part.length then none
  else part.foldlM (fun n c => (Hex.digit? c).map (n * 16 + ·)) 0

def embedded? (part : List Char) : Option (List Nat) := do
  let parts := splitOn '.' part
  let numbers ← parts.mapM fun p =>
    if p.isEmpty || !p.all Decimal.isDigit || 3 < p.length || (1 < p.length && p.head? == some '0')
      || 255 < Decimal.value p
    then none else some (Decimal.value p)
  match numbers with
  | [a, b, c, d] => some [a * 256 + b, c * 256 + d]
  | _ => none

def readGroups? : List (List Char) → Option (List Nat)
  | [] => some []
  | [last] => if last.contains '.' then embedded? last else (readGroup? last).map ([·])
  | part :: parts => do pure ((← readGroup? part) :: (← readGroups? parts))

def cutAtDoubleColon : List Char → Option (List Char × List Char)
  | ':' :: ':' :: rest => some ([], rest)
  | c :: rest => (cutAtDoubleColon rest).map fun (front, back) => (c :: front, back)
  | [] => none

def groupsOf? (text : List Char) : Option (List Nat) :=
  if text.isEmpty then some [] else readGroups? (splitOn ':' text)

/-- Read an address of version 6: eight groups, or fewer around a pair of colons. -/
def readAddress6 (text : List Char) : Option (List Nat) :=
  match cutAtDoubleColon text with
  | none => (groupsOf? text).bind fun groups => if groups.length = 8 then some groups else none
  | some (front, back) => do
      let front ← groupsOf? front
      let back ← groupsOf? back
      if 7 < front.length + back.length then none
      else pure (front ++ List.replicate (8 - front.length - back.length) 0 ++ back)

def longestZeros : (position run : Nat) → (best : Nat × Nat) → List Nat → Nat × Nat
  | _, _, best, [] => best
  | position, run, best, group :: rest =>
      if group = 0 then
        let run := run + 1
        let best := if best.2 < run then (position + 1 - run, run) else best
        longestZeros (position + 1) run best rest
      else longestZeros (position + 1) 0 best rest

/-- Write an address of version 6; a run of at least two zero groups is left out. -/
def writeAddress6 (groups : List Nat) : List Char :=
  let hex := fun group : Nat => String.ofList (Nat.toDigits 16 group)
  let (start, length) := longestZeros 0 0 (0, 0) groups
  if length < 2 then (joinWith ":" (groups.map hex)).toList
  else
    (joinWith ":" ((groups.take start).map hex) ++ "::" ++
      joinWith ":" ((groups.drop (start + length)).map hex)).toList

/-- The lowercase form of a letter of the Latin, Greek and Cyrillic scripts, and the ASCII
form of a full-width character. -/
def foldCase (c : Char) : Char :=
  let n := c.toNat
  if 0x41 ≤ n ∧ n ≤ 0x5a then Char.ofNat (n + 32)
  else if 0xc0 ≤ n ∧ n ≤ 0xde ∧ n ≠ 0xd7 then Char.ofNat (n + 32)
  else if 0x100 ≤ n ∧ n ≤ 0x137 ∧ n % 2 = 0 ∧ n ≠ 0x130 then Char.ofNat (n + 1)
  else if 0x139 ≤ n ∧ n ≤ 0x147 ∧ n % 2 = 1 then Char.ofNat (n + 1)
  else if 0x14a ≤ n ∧ n ≤ 0x177 ∧ n % 2 = 0 then Char.ofNat (n + 1)
  else if n = 0x178 then Char.ofNat 0xff
  else if 0x179 ≤ n ∧ n ≤ 0x17d ∧ n % 2 = 1 then Char.ofNat (n + 1)
  else if 0x391 ≤ n ∧ n ≤ 0x3ab ∧ n ≠ 0x3a2 then Char.ofNat (n + 32)
  else if 0x410 ≤ n ∧ n ≤ 0x42f then Char.ofNat (n + 32)
  else if 0x400 ≤ n ∧ n ≤ 0x40f then Char.ofNat (n + 80)
  else if 0xff01 ≤ n ∧ n ≤ 0xff5e then
    let ascii := n - 0xfee0
    Char.ofNat (if 0x41 ≤ ascii ∧ ascii ≤ 0x5a then ascii + 32 else ascii)
  else if n = 0x3002 ∨ n = 0xff0e ∨ n = 0xff61 then '.'
  else c

def isForbiddenInDomain (c : Char) : Bool :=
  c ≤ ' ' || c == '\x7f' || "#/:<>?@[\\]^|%".toList.contains c

def asciiLabel (label : List Char) : List Char :=
  if label.all fun c => c.toNat < 128 then label
  else "xn--".toList ++ Punycode.encode label

def asciiDomain (domain : List Char) : List Char :=
  let folded := (domain.filter fun c => c.toNat != 0xad).map foldCase
  (joinWith "." ((splitOn '.' folded).map fun label => String.ofList (asciiLabel label))).toList

def bracketedHost? (text : List Char) : Option (List Char) :=
  match text with
  | '[' :: rest =>
      if rest.getLast? = some ']' then
        (readAddress6 rest.dropLast).map fun groups => '[' :: writeAddress6 groups ++ [']']
      else none
  | _ => none

def webHost? (text : List Char) : Option (List Char) :=
  if text.head? = some '[' then bracketedHost? text
  else
    let domain := asciiDomain (Utf8.decodeLossy (unescape text))
    if domain.isEmpty || domain.any isForbiddenInDomain then none
    else if endsInNumber domain then (readAddress4 domain).map writeAddress4
    else some domain

def plainHost? (text : List Char) : Option (List Char) :=
  if text.head? = some '[' then bracketedHost? text
  else if text.any fun c => "\x00\t\n\r #/:<>?@[\\]^|".toList.contains c then none
  else some (escape isControlOrWide text)

end CertificateAudit.Url
