/-!
White space in running text: the characters of the Unicode property White_Space,
and trimming by it.
-/

namespace CertificateAudit.Text

def isBlank (c : Char) : Bool :=
  (0x09 ≤ c.val && c.val ≤ 0x0d) || c.val == 0x20 || c.val == 0x85 || c.val == 0xa0 ||
  c.val == 0x1680 || (0x2000 ≤ c.val && c.val ≤ 0x200a) || c.val == 0x2028 ||
  c.val == 0x2029 || c.val == 0x202f || c.val == 0x205f || c.val == 0x3000

def trimStart (text : List Char) : List Char :=
  text.dropWhile isBlank

def dropEndWhile {α : Type} (test : α → Bool) (text : List α) : List α :=
  (text.reverse.dropWhile test).reverse

def trim (text : List Char) : List Char :=
  dropEndWhile isBlank (trimStart text)

def isAllBlank (text : String) : Bool :=
  (trim text.toList).isEmpty

/-- Cut a list at every occurrence of the separator: always one piece more than separators. -/
def splitOn {α : Type} [DecidableEq α] (separator : α) : List α → List (List α)
  | [] => [[]]
  | c :: rest =>
      if c = separator then [] :: splitOn separator rest
      else
        match splitOn separator rest with
        | [] => [[c]]
        | piece :: pieces => (c :: piece) :: pieces

def joinWith (separator : String) : List String → String
  | [] => ""
  | [piece] => piece
  | piece :: pieces => piece ++ separator ++ joinWith separator pieces

/-- The lines of a text: each ends at a line feed, a carriage return before it is dropped,
and a text that ends in a line feed has no empty last line. -/
def lines (text : List Char) : List (List Char) :=
  let pieces := splitOn '\n' text
  let ended := pieces.dropLast.map fun piece =>
    if piece.getLast? = some '\r' then piece.dropLast else piece
  match pieces.getLast? with
  | none => ended
  | some last => if last.isEmpty then ended else ended ++ [last]

end CertificateAudit.Text
