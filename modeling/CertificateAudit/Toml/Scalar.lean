import CertificateAudit.Calendar.Date
import CertificateAudit.Text.Decimal
import CertificateAudit.Text.Hex
import CertificateAudit.Toml.Basic

/-!
The TOML values that are one token: strings of four kinds, numbers, times and truth values.
Each reader takes its value off the front of the text and leaves what is behind it.
-/

namespace CertificateAudit.Toml

open CertificateAudit.Text

def isSpace (c : Char) : Bool :=
  c == ' ' || c == '\t'

def isPlain (c : Char) : Bool :=
  c == '\t' || (' ' ≤ c && c != '\x7f')

def newLine? : List Char → Option (List Char)
  | '\n' :: rest => some rest
  | '\r' :: '\n' :: rest => some rest
  | _ => none

def readHexDigits : (count value : Nat) → List Char → Option (Nat × List Char)
  | 0, value, rest => some (value, rest)
  | _ + 1, _, [] => none
  | count + 1, value, c :: rest => do
      let digit ← Hex.digit? c
      readHexDigits count (value * 16 + digit) rest

def charOfNumber? (n : Nat) : Option Char :=
  if n < 0xd800 ∨ (0xe000 ≤ n ∧ n < 0x110000) then some (Char.ofNat n) else none

def readEscape : List Char → Option (Char × List Char)
  | 'b' :: rest => some ('\x08', rest)
  | 'f' :: rest => some ('\x0c', rest)
  | 'n' :: rest => some ('\n', rest)
  | 'r' :: rest => some ('\r', rest)
  | 't' :: rest => some ('\t', rest)
  | '"' :: rest => some ('"', rest)
  | '\\' :: rest => some ('\\', rest)
  | 'u' :: rest => do
      let (n, rest) ← readHexDigits 4 0 rest
      pure (← charOfNumber? n, rest)
  | 'U' :: rest => do
      let (n, rest) ← readHexDigits 8 0 rest
      pure (← charOfNumber? n, rest)
  | _ => none

def readBasic : (rounds : Nat) → List Char → Option (List Char × List Char)
  | 0, _ => none
  | rounds + 1, text =>
      match text with
      | [] => none
      | '"' :: rest => some ([], rest)
      | '\\' :: rest => do
          let (c, rest) ← readEscape rest
          let (content, rest) ← readBasic rounds rest
          pure (c :: content, rest)
      | c :: rest =>
          if isPlain c then do
            let (content, rest) ← readBasic rounds rest
            pure (c :: content, rest)
          else none

def readLiteral : List Char → Option (List Char × List Char)
  | [] => none
  | '\'' :: rest => some ([], rest)
  | c :: rest =>
      if isPlain c then do
        let (content, rest) ← readLiteral rest
        pure (c :: content, rest)
      else none

/-- The closing quotes of a string over several lines: three, and at most two more in front of
them, which belong to the content. -/
def closing? (quote : Char) (text : List Char) : Option (List Char × List Char) :=
  let count := min 5 (text.takeWhile (· == quote)).length
  if 3 ≤ count then some (List.replicate (count - 3) quote, text.drop count) else none

def skipBlankLines : (rounds : Nat) → List Char → List Char
  | 0, text => text
  | rounds + 1, text =>
      match text with
      | c :: rest =>
          if isSpace c then skipBlankLines rounds rest
          else
            match newLine? (c :: rest) with
            | some rest => skipBlankLines rounds rest
            | none => text
      | [] => []

/-- What follows a backslash at the end of a line, from the next line's text on. -/
def continued? (text : List Char) : Option (List Char) :=
  (newLine? (text.dropWhile isSpace)).map fun rest => skipBlankLines rest.length rest

/-- Read the rest of a string over several lines. A backslash at the end of a line swallows
the line break and all blanks behind it. -/
def readBasicLines : (rounds : Nat) → List Char → Option (List Char × List Char)
  | 0, _ => none
  | rounds + 1, text =>
      match closing? '"' text, newLine? text, text with
      | some closed, _, _ => some closed
      | none, some rest, _ => do
          let (content, rest) ← readBasicLines rounds rest
          pure ('\n' :: content, rest)
      | none, none, '\\' :: rest =>
          match continued? rest with
          | some rest => readBasicLines rounds rest
          | none => do
              let (c, rest) ← readEscape rest
              let (content, rest) ← readBasicLines rounds rest
              pure (c :: content, rest)
      | none, none, c :: rest =>
          if isPlain c then do
            let (content, rest) ← readBasicLines rounds rest
            pure (c :: content, rest)
          else none
      | none, none, [] => none

def readLiteralLines : (rounds : Nat) → List Char → Option (List Char × List Char)
  | 0, _ => none
  | rounds + 1, text =>
      match closing? '\'' text, newLine? text, text with
      | some closed, _, _ => some closed
      | none, some rest, _ => do
          let (content, rest) ← readLiteralLines rounds rest
          pure ('\n' :: content, rest)
      | none, none, c :: rest =>
          if isPlain c then do
            let (content, rest) ← readLiteralLines rounds rest
            pure (c :: content, rest)
          else none
      | none, none, [] => none

def dropNewLine (text : List Char) : List Char :=
  (newLine? text).getD text

/-- Read a string of any kind. A line break right behind three opening quotes does not
count. -/
def readText (text : List Char) : Option (List Char × List Char) :=
  match text with
  | '"' :: '"' :: '"' :: rest => readBasicLines text.length (dropNewLine rest)
  | '\'' :: '\'' :: '\'' :: rest => readLiteralLines text.length (dropNewLine rest)
  | '"' :: rest => readBasic text.length rest
  | '\'' :: rest => readLiteral rest
  | _ => none

/-- Read digits that single underscores may separate. -/
def readDigits (isDigit : Char → Bool) : List Char → Option (List Char × List Char)
  | [] => none
  | c :: rest => if isDigit c then some (more c rest) else none
where
  more (digit : Char) : List Char → List Char × List Char
    | [] => ([digit], [])
    | '_' :: c :: rest =>
        if isDigit c then
          let (digits, rest) := more c rest
          (digit :: digits, rest)
        else ([digit], '_' :: c :: rest)
    | c :: rest =>
        if isDigit c then
          let (digits, rest) := more c rest
          (digit :: digits, rest)
        else ([digit], c :: rest)

def readSign : List Char → Bool × List Char
  | '-' :: rest => (true, rest)
  | '+' :: rest => (false, rest)
  | text => (false, text)

/-- Read a whole number without its sign; a zero stands alone. -/
def readWhole : List Char → Option (List Char × List Char)
  | '0' :: rest => some (['0'], rest)
  | text => readDigits Decimal.isDigit text

def readExponent : List Char → Option (Int × List Char)
  | e :: rest =>
      if e = 'e' ∨ e = 'E' then do
        let (negative, rest) := readSign rest
        let (digits, rest) ← readDigits Decimal.isDigit rest
        let n : Int := Decimal.value digits
        pure (if negative then -n else n, rest)
      else none
  | [] => none

/-- Whether a decimal number is too large for 64-bit floating point: it rounds to 2 ^ 1024. -/
def overflows (digits : List Char) (exponent : Int) : Bool :=
  let n := Decimal.value digits
  if n = 0 then false
  else if 400 < exponent then true
  else if exponent < -400 - digits.length then false
  else
    let limit := 1 <<< 1024 - 1 <<< 970
    if 0 ≤ exponent then limit ≤ n * Nat.pow 10 exponent.toNat
    else limit * Nat.pow 10 exponent.natAbs ≤ n

/-- Read a number with a fraction, an exponent or both. One that is too large is refused,
unless it is negative. -/
def readFloat (text : List Char) : Option (Value × List Char) := do
  let (negative, rest) := readSign text
  let (whole, rest) ← readWhole rest
  let (fraction, rest) ← match rest with
    | '.' :: rest => do
        let (fraction, rest) ← readDigits Decimal.isDigit rest
        pure (some fraction, rest)
    | rest => pure (none, rest)
  let (exponent, rest) ← match readExponent rest, fraction with
    | some (exponent, rest), _ => pure (exponent, rest)
    | none, some _ => pure (0, rest)
    | none, none => none
  let decimals := fraction.getD []
  if !negative && overflows (whole ++ decimals) (exponent - decimals.length) then none
  else pure (.float, rest)

def readSpecialFloat (text : List Char) : Option (Value × List Char) :=
  match (readSign text).2 with
  | 'i' :: 'n' :: 'f' :: rest => some (.float, rest)
  | 'n' :: 'a' :: 'n' :: rest => some (.float, rest)
  | _ => none

def valueInBase (base : Nat) (digits : List Char) : Nat :=
  digits.foldl (fun n c => n * base + (Hex.digit? c).getD 0) 0

def readInBase (base : Nat) (text : List Char) : Option (Int × List Char) := do
  let isDigit := fun c => match Hex.digit? c with
    | some digit => decide (digit < base)
    | none => false
  let (digits, rest) ← readDigits isDigit text
  pure ((valueInBase base digits : Nat), rest)

/-- Read a whole number, which has to fit 64 bits. -/
def readInteger (text : List Char) : Option (Value × List Char) := do
  let (n, rest) ← match text with
    | '0' :: 'x' :: rest => readInBase 16 rest
    | '0' :: 'o' :: rest => readInBase 8 rest
    | '0' :: 'b' :: rest => readInBase 2 rest
    | text => do
        let (negative, rest) := readSign text
        let (digits, rest) ← readWhole rest
        let n : Int := Decimal.value digits
        pure (if negative then -n else n, rest)
  if -9223372036854775808 ≤ n ∧ n ≤ 9223372036854775807 then pure (.integer n, rest) else none

def readNumber (count lowest highest : Nat) (text : List Char) : Option (Nat × List Char) :=
  let digits := text.take count
  let n := Decimal.value digits
  if digits.length = count ∧ digits.all Decimal.isDigit ∧ lowest ≤ n ∧ n ≤ highest then
    some (n, text.drop count)
  else none

def expect? (c : Char) : List Char → Option (List Char)
  | found :: rest => if found = c then some rest else none
  | [] => none

def skipDay (text : List Char) : Option (List Char) := do
  let (year, rest) ← readNumber 4 0 9999 text
  let (month, rest) ← readNumber 2 1 12 (← expect? '-' rest)
  let (day, rest) ← readNumber 2 1 31 (← expect? '-' rest)
  if day ≤ Calendar.daysInMonth year month then some rest else none

def skipTimeOfDay (text : List Char) : Option (List Char) := do
  let (_, rest) ← readNumber 2 0 23 text
  let (_, rest) ← readNumber 2 0 59 (← expect? ':' rest)
  let (_, rest) ← readNumber 2 0 60 (← expect? ':' rest)
  match rest with
  | '.' :: rest =>
      let digits := rest.takeWhile Decimal.isDigit
      if digits.isEmpty then none else some (rest.drop digits.length)
  | rest => some rest

def skipOffset : List Char → Option (List Char)
  | [] => some []
  | c :: rest =>
      if c = 'Z' ∨ c = 'z' then some rest
      else if c = '+' ∨ c = '-' then do
        let (_, rest) ← readNumber 2 0 23 rest
        let (_, rest) ← readNumber 2 0 59 (← expect? ':' rest)
        pure rest
      else some (c :: rest)

/-- Pass over the time of day behind a day, if there is one; the letter T or a space joins
them. -/
def skipJoinedTime : List Char → Option (List Char)
  | [] => some []
  | c :: rest =>
      if c = 'T' ∨ c = 't' ∨ c = ' ' then
        match readNumber 2 0 23 rest with
        | some (_, ':' :: _) => (skipTimeOfDay rest).bind skipOffset
        | _ => some (c :: rest)
      else some (c :: rest)

def readTime (text : List Char) : Option (Value × List Char) :=
  match skipDay text with
  | some rest => (skipJoinedTime rest).map fun rest => (.time, rest)
  | none => (skipTimeOfDay text).map fun rest => (.time, rest)

def readScalar (text : List Char) : Option (Value × List Char) :=
  match text with
  | 't' :: 'r' :: 'u' :: 'e' :: rest => some (.boolean true, rest)
  | 'f' :: 'a' :: 'l' :: 's' :: 'e' :: rest => some (.boolean false, rest)
  | '"' :: _ | '\'' :: _ =>
      (readText text).map fun (content, rest) => (.text (String.ofList content), rest)
  | text =>
      readTime text <|> readFloat text <|> readSpecialFloat text <|> readInteger text

end CertificateAudit.Toml
