import CertificateAudit.Json.Reader

/-!
The grammar of JSON texts. `Spells value text` says that the text is one way of writing the
value: blanks may stand around values, commas and colons, a character of a string may be
escaped or not, and a number is any decimal with an optional fraction and exponent.
-/

namespace CertificateAudit.Json

open CertificateAudit.Text

def IsSpaces (text : List Char) : Prop :=
  ∀ c ∈ text, isSpace c = true

theorem isSpaces_nil : IsSpaces [] :=
  List.forall_mem_nil _

def IsDigits (text : List Char) : Prop :=
  text ≠ [] ∧ ∀ c ∈ text, Decimal.isDigit c = true

def IsWhole (text : List Char) : Prop :=
  IsDigits text ∧ (text.head? = some '0' → text = ['0'])

inductive IsFraction : List Char → Prop where
  | absent : IsFraction []
  | present {digits} : IsDigits digits → IsFraction ('.' :: digits)

inductive IsExponent : List Char → Prop where
  | absent : IsExponent []
  | present {letter sign digits} :
      letter = 'e' ∨ letter = 'E' → sign = [] ∨ sign = ['+'] ∨ sign = ['-'] →
      IsDigits digits → IsExponent (letter :: (sign ++ digits))

inductive IsNumber : List Char → Prop where
  | positive {whole fraction exponent} :
      IsWhole whole → IsFraction fraction → IsExponent exponent →
      IsNumber (whole ++ fraction ++ exponent)
  | negative {whole fraction exponent} :
      IsWhole whole → IsFraction fraction → IsExponent exponent →
      IsNumber ('-' :: (whole ++ fraction ++ exponent))

/-- How one place of a string literal is written. -/
inductive SpellsPiece : Piece → List Char → Prop where
  | plain {c} : ' ' ≤ c → c ≠ '"' → c ≠ '\\' → SpellsPiece (.char c) [c]
  | short {letter c} : escapedChar? letter = some c → SpellsPiece (.char c) ['\\', letter]
  | code {a b c d n} : hexUnit? a b c d = some n → SpellsPiece (.unit n) ['\\', 'u', a, b, c, d]

inductive SpellsPieces : List Piece → List Char → Prop where
  | done : SpellsPieces [] []
  | next {piece text pieces rest} :
      SpellsPiece piece text → SpellsPieces pieces rest →
      SpellsPieces (piece :: pieces) (text ++ rest)

inductive SpellsString : Option String → List Char → Prop where
  | quoted {pieces inside} :
      SpellsPieces pieces inside →
      SpellsString ((textOfPieces? pieces).map String.ofList) ('"' :: (inside ++ ['"']))

section

variable {α : Type} (spells : α → List Char → Prop)

/-- One thing or more, with commas between. -/
inductive Listed : List α → List Char → Prop where
  | last {before value text after} :
      IsSpaces before → spells value text → IsSpaces after →
      Listed [value] (before ++ (text ++ after))
  | next {before value text after values rest} :
      IsSpaces before → spells value text → IsSpaces after → Listed values rest →
      Listed (value :: values) (before ++ (text ++ (after ++ ',' :: rest)))

inductive Enclosed : List α → List Char → Prop where
  | empty {blanks} : IsSpaces blanks → Enclosed [] blanks
  | some {values inside} : Listed spells values inside → Enclosed values inside

/-- A name, a colon and a value. -/
inductive Labelled : Option String × α → List Char → Prop where
  | member {key name before after value text} :
      SpellsString key name → IsSpaces before → IsSpaces after → spells value text →
      Labelled (key, value) (name ++ (before ++ ':' :: (after ++ text)))

end

inductive Spells : Json → List Char → Prop where
  | null : Spells .null ['n', 'u', 'l', 'l']
  | yes : Spells (.bool true) ['t', 'r', 'u', 'e']
  | no : Spells (.bool false) ['f', 'a', 'l', 's', 'e']
  | number {spelling} : IsNumber spelling → Spells (.number spelling) spelling
  | string {text literal} : SpellsString text literal → Spells (.string text) literal
  | array {items inside} :
      Enclosed Spells items inside → Spells (.array items) ('[' :: (inside ++ [']']))
  | object {members inside} :
      Enclosed (Labelled Spells) members inside →
      Spells (.object members) ('\x7b' :: (inside ++ ['\x7d']))

end CertificateAudit.Json
