import CertificateAudit.Json.Basic
import CertificateAudit.Text.Decimal
import CertificateAudit.Text.Hex

/-!
Reading JSON text. `Json.read?` takes a text that is one value with blanks around it; values
may be nested to any depth.
-/

namespace CertificateAudit.Json

open CertificateAudit.Text

def isSpace (c : Char) : Bool :=
  c == ' ' || c == '\n' || c == '\t' || c == '\r'

def skipSpace (text : List Char) : List Char :=
  text.dropWhile isSpace

/-- What a string literal holds at one place: a character, or a UTF-16 code unit given by its
number. -/
inductive Piece where
  | char (c : Char)
  | unit (n : Nat)
deriving DecidableEq

def escapedChar? : Char → Option Char
  | '"' => some '"'
  | '\\' => some '\\'
  | '/' => some '/'
  | 'b' => some '\x08'
  | 'f' => some '\x0c'
  | 'n' => some '\n'
  | 'r' => some '\r'
  | 't' => some '\t'
  | _ => none

def hexUnit? (a b c d : Char) : Option Nat := do
  pure (((← Hex.digit? a) * 16 + (← Hex.digit? b)) * 256 +
    ((← Hex.digit? c) * 16 + (← Hex.digit? d)))

def readPieces : List Char → Option (List Piece × List Char)
  | [] => none
  | '"' :: rest => some ([], rest)
  | '\\' :: 'u' :: a :: b :: c :: d :: rest => do
      let unit ← hexUnit? a b c d
      let (pieces, rest) ← readPieces rest
      pure (.unit unit :: pieces, rest)
  | '\\' :: letter :: rest => do
      let c ← escapedChar? letter
      let (pieces, rest) ← readPieces rest
      pure (.char c :: pieces, rest)
  | c :: rest =>
      if c < ' ' ∨ c = '\\' then none
      else do
        let (pieces, rest) ← readPieces rest
        pure (.char c :: pieces, rest)

/-- The text of a literal. Half of a surrogate pair has to be followed at once by the other
half, also given by its number. -/
def textOfPieces? : List Piece → Option (List Char)
  | [] => some []
  | .char c :: rest => (textOfPieces? rest).map (c :: ·)
  | .unit n :: rest =>
      if n < 0xd800 ∨ 0xe000 ≤ n then (textOfPieces? rest).map (Char.ofNat n :: ·)
      else
        match rest with
        | .unit low :: rest =>
            if n < 0xdc00 ∧ 0xdc00 ≤ low ∧ low < 0xe000 then
              (textOfPieces? rest).map
                (Char.ofNat (0x10000 + (n - 0xd800) * 0x400 + (low - 0xdc00)) :: ·)
            else none
        | _ => none

def readString (text : List Char) : Option (Option String × List Char) := do
  let (pieces, rest) ← readPieces text
  pure ((textOfPieces? pieces).map String.ofList, rest)

def readDigits (text : List Char) : Option (List Char × List Char) :=
  match text.takeWhile Decimal.isDigit with
  | [] => none
  | digits => some (digits, text.drop digits.length)

def readFraction : List Char → Option (List Char × List Char)
  | '.' :: rest => do
      let (digits, rest) ← readDigits rest
      pure ('.' :: digits, rest)
  | text => some ([], text)

def readExponentDigits : List Char → Option (List Char × List Char)
  | '+' :: rest => (readDigits rest).map fun (digits, rest) => ('+' :: digits, rest)
  | '-' :: rest => (readDigits rest).map fun (digits, rest) => ('-' :: digits, rest)
  | text => readDigits text

def readExponent : List Char → Option (List Char × List Char)
  | 'e' :: rest => (readExponentDigits rest).map fun (digits, rest) => ('e' :: digits, rest)
  | 'E' :: rest => (readExponentDigits rest).map fun (digits, rest) => ('E' :: digits, rest)
  | text => some ([], text)

/-- Read a number without its sign. Only zero itself starts with the digit zero. -/
def readMagnitude (text : List Char) : Option (List Char × List Char) := do
  let (whole, rest) ← readDigits text
  if whole.head? = some '0' ∧ 1 < whole.length then none
  else
    let (fraction, rest) ← readFraction rest
    let (exponent, rest) ← readExponent rest
    pure (whole ++ fraction ++ exponent, rest)

def readNumber : List Char → Option (List Char × List Char)
  | '-' :: rest => (readMagnitude rest).map fun (spelling, rest) => ('-' :: spelling, rest)
  | text => readMagnitude text

/-- Read the rest of a list behind its first bracket: things with commas between, up to the
closing bracket. -/
def readSeparated {α : Type} (read : List Char → Option (α × List Char)) (close : Char) :
    (rounds : Nat) → List Char → Option (List α × List Char)
  | 0, _ => none
  | rounds + 1, text => do
      let (value, rest) ← read text
      match skipSpace rest with
      | [] => none
      | c :: rest =>
          if c = close then some ([value], rest)
          else if c = ',' then
            let (values, rest) ← readSeparated read close rounds rest
            pure (value :: values, rest)
          else none

def readList {α : Type} (read : List Char → Option (α × List Char)) (close : Char)
    (text : List Char) : Option (List α × List Char) :=
  match skipSpace text with
  | [] => none
  | c :: rest =>
      if c = close then some ([], rest) else readSeparated read close (c :: rest).length (c :: rest)

def readMember (readValue : List Char → Option (Json × List Char)) (text : List Char) :
    Option ((Option String × Json) × List Char) :=
  match skipSpace text with
  | '"' :: rest => do
      let (key, rest) ← readString rest
      match skipSpace rest with
      | ':' :: rest =>
          let (value, rest) ← readValue rest
          pure ((key, value), rest)
      | _ => none
  | _ => none

/-- Read a value that is nested less deep than the bound. -/
def readValue : (bound : Nat) → List Char → Option (Json × List Char)
  | 0, _ => none
  | bound + 1, text =>
      match skipSpace text with
      | 'n' :: 'u' :: 'l' :: 'l' :: rest => some (.null, rest)
      | 't' :: 'r' :: 'u' :: 'e' :: rest => some (.bool true, rest)
      | 'f' :: 'a' :: 'l' :: 's' :: 'e' :: rest => some (.bool false, rest)
      | '"' :: rest => (readString rest).map fun (text, rest) => (.string text, rest)
      | '[' :: rest =>
          (readList (readValue bound) ']' rest).map fun (items, rest) => (.array items, rest)
      | '\x7b' :: rest =>
          (readList (readMember (readValue bound)) '\x7d' rest).map
            fun (members, rest) => (.object members, rest)
      | rest => (readNumber rest).map fun (spelling, rest) => (.number spelling, rest)

def read? (text : String) : Option Json := do
  let characters := text.toList
  let (value, rest) ← readValue (characters.length + 1) characters
  if (skipSpace rest).isEmpty then some value else none

end CertificateAudit.Json
