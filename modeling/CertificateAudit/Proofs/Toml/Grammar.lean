import CertificateAudit.Toml.Reader

/-!
The grammar of TOML documents. `Spells limits depth value text` says that the text is one way of
writing the value: strings in all four kinds of quotes with any of their characters escaped, numbers
in any base with underscores between their digits, lists over several lines with comments in them.
`SpellsDocument limits statements text` says that the text is one way of writing the statements,
each on a line of its own.
-/

namespace CertificateAudit.Toml

open CertificateAudit.Text

/-- What a well-written document may hold and a reader may still refuse. -/
structure Limits where
  depth : Nat
  /-- Whether floating point numbers may be too large for 64 bits. -/
  largeFloats : Bool
deriving DecidableEq

def IsSpaces (text : List Char) : Prop :=
  ∀ c ∈ text, isSpace c = true

def IsNewLine (text : List Char) : Prop :=
  text = ['\n'] ∨ text = ['\r', '\n']

/-! Strings, each behind the content that it stands for. -/

def escapeLetters : List (Char × Char) :=
  [('b', '\x08'), ('f', '\x0c'), ('n', '\n'), ('r', '\r'), ('t', '\t'), ('"', '"'), ('\\', '\\')]

def IsHexNumber (n : Nat) (digits : List Char) : Prop :=
  (∀ c ∈ digits, (Hex.digit? c).isSome = true) ∧ valueInBase 16 digits = n

/-- What stands for a character behind a backslash. -/
inductive SpellsEscape : Char → List Char → Prop where
  | letter {letter c} : (letter, c) ∈ escapeLetters → SpellsEscape c [letter]
  | short {c : Char} {digits} :
      digits.length = 4 → IsHexNumber c.toNat digits → SpellsEscape c ('u' :: digits)
  | long {c : Char} {digits} :
      digits.length = 8 → IsHexNumber c.toNat digits → SpellsEscape c ('U' :: digits)

inductive SpellsBasic : List Char → List Char → Prop where
  | done : SpellsBasic [] []
  | plain {c content text} :
      isPlain c = true → c ≠ '"' → c ≠ '\\' → SpellsBasic content text →
      SpellsBasic (c :: content) (c :: text)
  | escaped {c escape content text} :
      SpellsEscape c escape → SpellsBasic content text →
      SpellsBasic (c :: content) ('\\' :: (escape ++ text))

def IsLiteral (text : List Char) : Prop :=
  ∀ c ∈ text, isPlain c = true ∧ c ≠ '\''

inductive IsBlankLines : List Char → Prop where
  | done : IsBlankLines []
  | space {c text} : isSpace c = true → IsBlankLines text → IsBlankLines (c :: text)
  | newLine {ending text} :
      IsNewLine ending → IsBlankLines text → IsBlankLines (ending ++ text)

def StartsVisible (text : List Char) : Prop :=
  ∀ c ∈ text.head?, isSpace c = false ∧ c ≠ '\n' ∧ c ≠ '\r'

/-- The inside of a string over several lines. It has no three quotes in a row, and a backslash at
the end of a line swallows all blanks and line breaks behind it. -/
inductive SpellsBasicLines : List Char → List Char → Prop where
  | done : SpellsBasicLines [] []
  | newLine {ending content text} :
      IsNewLine ending → SpellsBasicLines content text →
      SpellsBasicLines ('\n' :: content) (ending ++ text)
  | quote {content text} :
      ¬ ['"', '"'] <+: text → SpellsBasicLines content text →
      SpellsBasicLines ('"' :: content) ('"' :: text)
  | plain {c content text} :
      isPlain c = true → c ≠ '"' → c ≠ '\\' → SpellsBasicLines content text →
      SpellsBasicLines (c :: content) (c :: text)
  | escaped {c escape content text} :
      SpellsEscape c escape → SpellsBasicLines content text →
      SpellsBasicLines (c :: content) ('\\' :: (escape ++ text))
  | continued {blanks ending gap content text} :
      IsSpaces blanks → IsNewLine ending → IsBlankLines gap → StartsVisible text →
      SpellsBasicLines content text →
      SpellsBasicLines content ('\\' :: (blanks ++ (ending ++ (gap ++ text))))

inductive SpellsLiteralLines : List Char → List Char → Prop where
  | done : SpellsLiteralLines [] []
  | newLine {ending content text} :
      IsNewLine ending → SpellsLiteralLines content text →
      SpellsLiteralLines ('\n' :: content) (ending ++ text)
  | quote {content text} :
      ¬ ['\'', '\''] <+: text → SpellsLiteralLines content text →
      SpellsLiteralLines ('\'' :: content) ('\'' :: text)
  | plain {c content text} :
      isPlain c = true → c ≠ '\'' → SpellsLiteralLines content text →
      SpellsLiteralLines (c :: content) (c :: text)

/-- A line break that does not count, in front of the inside of a string. Without it the inside
does not start with a line break. -/
def IsOpening (opening inside : List Char) : Prop :=
  IsNewLine opening ∨ opening = [] ∧ ∀ c ∈ inside.head?, c ≠ '\n' ∧ c ≠ '\r'

inductive SpellsString : List Char → List Char → Prop where
  | basic {content inside} :
      SpellsBasic content inside → SpellsString content ('"' :: (inside ++ ['"']))
  | literal {inside} : IsLiteral inside → SpellsString inside ('\'' :: (inside ++ ['\'']))
  | basicLines {opening content inside} :
      IsOpening opening inside → SpellsBasicLines content inside →
      SpellsString content ('"' :: '"' :: '"' :: (opening ++ (inside ++ ['"', '"', '"'])))
  | literalLines {opening content inside} :
      IsOpening opening inside → SpellsLiteralLines content inside →
      SpellsString content ('\'' :: '\'' :: '\'' :: (opening ++ (inside ++ ['\'', '\'', '\''])))

/-! Numbers. -/

inductive SpellsDigits (isDigit : Char → Bool) : List Char → List Char → Prop where
  | one {c} : isDigit c = true → SpellsDigits isDigit [c] [c]
  | next {c digits text} :
      isDigit c = true → SpellsDigits isDigit digits text →
      SpellsDigits isDigit (c :: digits) (c :: text)
  | separated {c digits text} :
      isDigit c = true → SpellsDigits isDigit digits text →
      SpellsDigits isDigit (c :: digits) (c :: '_' :: text)

inductive SpellsSign : Bool → List Char → Prop where
  | absent : SpellsSign false []
  | plus : SpellsSign false ['+']
  | minus : SpellsSign true ['-']

inductive SpellsWhole : List Char → List Char → Prop where
  | zero : SpellsWhole ['0'] ['0']
  | positive {digits text} :
      SpellsDigits Decimal.isDigit digits text → text.head? ≠ some '0' → SpellsWhole digits text

def signed (negative : Bool) (n : Nat) : Int :=
  if negative then -n else n

def baseLetters : List (Char × Nat) :=
  [('x', 16), ('o', 8), ('b', 2)]

def isDigitIn (base : Nat) (c : Char) : Bool :=
  match Hex.digit? c with
  | some digit => decide (digit < base)
  | none => false

inductive SpellsInteger : Int → List Char → Prop where
  | decimal {negative sign digits text} :
      SpellsSign negative sign → SpellsWhole digits text →
      SpellsInteger (signed negative (Decimal.value digits)) (sign ++ text)
  | based {letter base digits text} :
      (letter, base) ∈ baseLetters → SpellsDigits (isDigitIn base) digits text →
      SpellsInteger (valueInBase base digits) ('0' :: letter :: text)

inductive SpellsExponent : Int → List Char → Prop where
  | intro {letter negative sign digits text} :
      letter = 'e' ∨ letter = 'E' → SpellsSign negative sign →
      SpellsDigits Decimal.isDigit digits text →
      SpellsExponent (signed negative (Decimal.value digits)) (letter :: (sign ++ text))

/-- The digits behind the point and the exponent of a number that has one of the two at least. -/
inductive SpellsScale : List Char → Int → List Char → Prop where
  | fraction {decimals text} :
      SpellsDigits Decimal.isDigit decimals text → SpellsScale decimals 0 ('.' :: text)
  | exponent {n text} : SpellsExponent n text → SpellsScale [] n text
  | both {decimals n text behind} :
      SpellsDigits Decimal.isDigit decimals text → SpellsExponent n behind →
      SpellsScale decimals n ('.' :: (text ++ behind))

/-- A floating point number. Only a positive one can be too large: a negative one stands for minus
infinity then. -/
inductive IsFloat (limits : Limits) : List Char → Prop where
  | number {negative sign whole text decimals n scale} :
      SpellsSign negative sign → SpellsWhole whole text → SpellsScale decimals n scale →
      limits.largeFloats = true ∨ negative = true ∨
        overflows (whole ++ decimals) (n - decimals.length) = false →
      IsFloat limits (sign ++ (text ++ scale))
  | special {negative sign name} :
      SpellsSign negative sign → name = ['i', 'n', 'f'] ∨ name = ['n', 'a', 'n'] →
      IsFloat limits (sign ++ name)

/-! Times. -/

structure IsNumberIn (count lowest highest : Nat) (digits : List Char) : Prop where
  length_eq : digits.length = count
  all_digits : ∀ c ∈ digits, Decimal.isDigit c = true
  lowest_le : lowest ≤ Decimal.value digits
  le_highest : Decimal.value digits ≤ highest

inductive IsDay : List Char → Prop where
  | intro {year month day} :
      IsNumberIn 4 0 9999 year → IsNumberIn 2 1 12 month → IsNumberIn 2 1 31 day →
      Decimal.value day ≤ Calendar.daysInMonth (Decimal.value year) (Decimal.value month) →
      IsDay (year ++ '-' :: (month ++ '-' :: day))

/-- The digits behind the point of a second, if there are any. -/
inductive IsSecondFraction : List Char → Prop where
  | absent : IsSecondFraction []
  | present {digits} :
      digits ≠ [] → (∀ c ∈ digits, Decimal.isDigit c = true) → IsSecondFraction ('.' :: digits)

inductive IsTimeOfDay : List Char → Prop where
  | intro {hour minute second fraction} :
      IsNumberIn 2 0 23 hour → IsNumberIn 2 0 59 minute → IsNumberIn 2 0 60 second →
      IsSecondFraction fraction →
      IsTimeOfDay (hour ++ ':' :: (minute ++ ':' :: (second ++ fraction)))

inductive IsOffset : List Char → Prop where
  | absent : IsOffset []
  | universal {c} : c = 'Z' ∨ c = 'z' → IsOffset [c]
  | shifted {c hour minute} :
      c = '+' ∨ c = '-' → IsNumberIn 2 0 23 hour → IsNumberIn 2 0 59 minute →
      IsOffset (c :: (hour ++ ':' :: minute))

inductive IsTime : List Char → Prop where
  | day {day} : IsDay day → IsTime day
  | clock {clock} : IsTimeOfDay clock → IsTime clock
  | moment {day joint clock offset} :
      IsDay day → joint = 'T' ∨ joint = 't' ∨ joint = ' ' → IsTimeOfDay clock →
      IsOffset offset → IsTime (day ++ joint :: (clock ++ offset))

def Fits (n : Int) : Prop :=
  -9223372036854775808 ≤ n ∧ n ≤ 9223372036854775807

/-- Values that are one token. -/
inductive SpellsScalar (limits : Limits) : Value → List Char → Prop where
  | text {content text} :
      SpellsString content text → SpellsScalar limits (.text (String.ofList content)) text
  | integer {n text} :
      SpellsInteger n text → Fits n → SpellsScalar limits (.integer n) text
  | float {text} : IsFloat limits text → SpellsScalar limits .float text
  | yes : SpellsScalar limits (.boolean true) ['t', 'r', 'u', 'e']
  | no : SpellsScalar limits (.boolean false) ['f', 'a', 'l', 's', 'e']
  | time {text} : IsTime text → SpellsScalar limits .time text

/-! Keys and values. -/

inductive SpellsPart : String → List Char → Prop where
  | bare {text} :
      text ≠ [] → (∀ c ∈ text, isBareKey c = true) → SpellsPart (String.ofList text) text
  | basic {content inside} :
      SpellsBasic content inside → SpellsPart (String.ofList content) ('"' :: (inside ++ ['"']))
  | literal {inside} :
      IsLiteral inside → SpellsPart (String.ofList inside) ('\'' :: (inside ++ ['\'']))

inductive SpellsParts : List String → List Char → Prop where
  | last {before part text after} :
      IsSpaces before → SpellsPart part text → IsSpaces after →
      SpellsParts [part] (before ++ (text ++ after))
  | next {before part text after parts rest} :
      IsSpaces before → SpellsPart part text → IsSpaces after → SpellsParts parts rest →
      SpellsParts (part :: parts) (before ++ (text ++ (after ++ '.' :: rest)))

/-- A key, all parts but the last apart from the last. -/
structure SpellsKey (limits : Limits) (path : List String) (key : String) (text : List Char) :
    Prop where
  parts : SpellsParts (path ++ [key]) text
  short : path.length < limits.depth

inductive IsGap : List Char → Prop where
  | done : IsGap []
  | space {c text} : isSpace c = true → IsGap text → IsGap (c :: text)
  | newLine {ending text} : IsNewLine ending → IsGap text → IsGap (ending ++ text)
  | comment {comment ending text} :
      (∀ c ∈ comment, isPlain c = true) → IsNewLine ending → IsGap text →
      IsGap ('#' :: (comment ++ (ending ++ text)))

structure Entry where
  path : List String
  key : String
  value : Value

section

variable (limits : Limits) (spells : Value → List Char → Prop)

/-- The inside of a list; a comma may follow its last value. -/
inductive SpellsItems : List Value → List Char → Prop where
  | none {gap} : IsGap gap → SpellsItems [] gap
  | last {before value text after} :
      IsGap before → spells value text → IsGap after →
      SpellsItems [value] (before ++ (text ++ after))
  | next {before value text after values rest} :
      IsGap before → spells value text → IsGap after → SpellsItems values rest →
      SpellsItems (value :: values) (before ++ (text ++ (after ++ ',' :: rest)))

inductive SpellsEntry : Entry → List Char → Prop where
  | intro {path key name before value text} :
      SpellsKey limits path key name → IsSpaces before → spells value text →
      SpellsEntry ⟨path, key, value⟩ (name ++ '=' :: (before ++ text))

/-- The inside of a table between braces, which stands on one line. -/
inductive SpellsEntries : List Entry → List Char → Prop where
  | last {entry text after} :
      SpellsEntry limits spells entry text → IsSpaces after →
      SpellsEntries [entry] (text ++ after)
  | next {entry text after entries rest} :
      SpellsEntry limits spells entry text → IsSpaces after → SpellsEntries entries rest →
      SpellsEntries (entry :: entries) (text ++ (after ++ ',' :: rest))

/-- The table of some entries, if none of them is in the way of another. -/
def Table.ofEntries? (entries : List Entry) : Option Table :=
  entries.foldlM (fun table entry => table.define entry.path entry.key entry.value) []

inductive SpellsNested : Value → List Char → Prop where
  | list {items inside} :
      SpellsItems spells items inside → SpellsNested (.array items) ('[' :: (inside ++ [']']))
  | empty {blanks} :
      IsSpaces blanks → SpellsNested (.table .inline []) ('\x7b' :: (blanks ++ ['\x7d']))
  | table {entries table inside} :
      SpellsEntries limits spells entries inside → Table.ofEntries? entries = some table →
      SpellsNested (.table .inline table) ('\x7b' :: (inside ++ ['\x7d']))

end

/-- Values, nested at most so deep. -/
def Spells (limits : Limits) : (depth : Nat) → Value → List Char → Prop
  | 0, value, text => SpellsScalar limits value text
  | depth + 1, value, text =>
      SpellsScalar limits value text ∨ SpellsNested limits (Spells limits depth) value text

/-! Documents. -/

inductive Statement where
  | entry (entry : Entry)
  | table (path : List String) (key : String)
  | element (path : List String) (key : String)

inductive SpellsStatement (limits : Limits) : Statement → List Char → Prop where
  | entry {entry text} :
      SpellsEntry limits (Spells limits limits.depth) entry text →
      SpellsStatement limits (.entry entry) text
  | table {path key name} :
      SpellsKey limits path key name →
      SpellsStatement limits (.table path key) ('[' :: (name ++ [']']))
  | element {path key name} :
      SpellsKey limits path key name →
      SpellsStatement limits (.element path key) ('[' :: '[' :: (name ++ [']', ']']))

inductive IsComment : List Char → Prop where
  | absent : IsComment []
  | present {comment} : (∀ c ∈ comment, isPlain c = true) → IsComment ('#' :: comment)

inductive SpellsLine (limits : Limits) : List Statement → List Char → Prop where
  | blank {blanks comment} :
      IsSpaces blanks → IsComment comment → SpellsLine limits [] (blanks ++ comment)
  | statement {before statement text after comment} :
      IsSpaces before → SpellsStatement limits statement text → IsSpaces after →
      IsComment comment →
      SpellsLine limits [statement] (before ++ (text ++ (after ++ comment)))

inductive SpellsLines (limits : Limits) : List Statement → List Char → Prop where
  | last {statements line} : SpellsLine limits statements line → SpellsLines limits statements line
  | next {statements line ending others rest} :
      SpellsLine limits statements line → IsNewLine ending → SpellsLines limits others rest →
      SpellsLines limits (statements ++ others) (line ++ (ending ++ rest))

inductive SpellsDocument (limits : Limits) : List Statement → List Char → Prop where
  | plain {statements text} :
      SpellsLines limits statements text → SpellsDocument limits statements text
  | marked {statements text} :
      SpellsLines limits statements text → SpellsDocument limits statements ('\uFEFF' :: text)

end CertificateAudit.Toml
