import CertificateAudit.Json.Basic
import CertificateAudit.Text.Hex

/-!
Writing JSON text over several lines: each item and member on a line of its own, two spaces
further in than its bracket.
-/

namespace CertificateAudit.Json

open CertificateAudit.Text

/-- A character of a string literal. Quotes, backslashes and control characters are escaped,
those with a short escape by it; all others stand for themselves. -/
def escape (c : Char) : List Char :=
  match c with
  | '"' => ['\\', '"']
  | '\\' => ['\\', '\\']
  | '\x08' => ['\\', 'b']
  | '\x0c' => ['\\', 'f']
  | '\n' => ['\\', 'n']
  | '\r' => ['\\', 'r']
  | '\t' => ['\\', 't']
  | c =>
      if c < ' ' then ['\\', 'u', '0', '0'] ++ Hex.lower [UInt8.ofNat c.toNat] else [c]

def quote (text : List Char) : List Char :=
  '"' :: text.flatMap escape ++ ['"']

def newLine (level : Nat) : List Char :=
  '\n' :: List.replicate (2 * level) ' '

def bracketed (first last : Char) (level : Nat) (lines : List (List Char)) : List Char :=
  match lines with
  | [] => [first, last]
  | line :: lines =>
      first :: newLine (level + 1) ++ line ++
        lines.flatMap (fun line => ',' :: newLine (level + 1) ++ line) ++
        newLine level ++ [last]

mutual

/-- Write a value whose brackets stand at the level. A string without text is written empty. -/
def pretty (level : Nat) : Json → List Char
  | .null => "null".toList
  | .bool true => "true".toList
  | .bool false => "false".toList
  | .number spelling => spelling
  | .string text => quote (text.getD "").toList
  | .array items => bracketed '[' ']' level (prettyItems (level + 1) items)
  | .object members => bracketed '\x7b' '\x7d' level (prettyMembers (level + 1) members)

def prettyItems (level : Nat) : List Json → List (List Char)
  | [] => []
  | item :: items => pretty level item :: prettyItems level items

def prettyMembers (level : Nat) : List (Option String × Json) → List (List Char)
  | [] => []
  | (key, value) :: members =>
      (quote (key.getD "").toList ++ ':' :: ' ' :: pretty level value) ::
        prettyMembers level members

end

def print (value : Json) : String :=
  String.ofList (pretty 0 value)

end CertificateAudit.Json
