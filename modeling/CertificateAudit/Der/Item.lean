import CertificateAudit.Der.Header

/-!
Elements cut out of a byte string with their content left as bytes. The strict reading asks
for a stated length; the lenient one also takes content that runs up to an end marker, which
may itself hold elements of that kind.
-/

namespace CertificateAudit.Der

structure Item where
  tag : Tag
  constructed : Bool
  content : List UInt8
deriving DecidableEq

def readItem (bytes : List UInt8) : Option (Item × List UInt8) := do
  let (header, rest) ← readHeader bytes
  let length ← header.length
  if rest.length < length then none
  else some (⟨header.tag, header.constructed, rest.take length⟩, rest.drop length)

/-- Repeat a step that consumes bytes until it reports the end; each step takes at least one
of the allowed rounds. -/
def untilEnd (step : List UInt8 → Option (Bool × List UInt8)) :
    (rounds : Nat) → List UInt8 → Option (List UInt8)
  | 0, _ => none
  | rounds + 1, bytes => do
      let (ended, rest) ← step bytes
      if ended then some rest else untilEnd step rounds rest

/-- Pass over the content behind a header, at most so many levels deep. The flag says that
the header itself was an end marker: number zero and no content, in whatever class. -/
def skipContent : (depth : Nat) → Header → List UInt8 → Option (Bool × List UInt8)
  | 0, _, _ => none
  | depth + 1, header, bytes =>
      match header.length with
      | some length =>
          if length = 0 ∧ header.tag.number = 0 then some (true, bytes)
          else if bytes.length < length then none
          else some (false, bytes.drop length)
      | none => do
          let rest ← untilEnd
            (fun bytes => do
              let (inner, rest) ← readHeader bytes
              skipContent depth inner rest)
            bytes.length bytes
          pure (false, rest)

def maxDepth : Nat := 50

/-- Cut out one element of stated or open length; the two bytes of the end marker are not
content. -/
def readOpenItem (bytes : List UInt8) : Option (Item × List UInt8) := do
  let (header, body) ← readHeader bytes
  let (_, rest) ← skipContent maxDepth header body
  let spanned := body.length - rest.length
  let content := match header.length with
    | some _ => body.take spanned
    | none => body.take (spanned - 2)
  pure (⟨header.tag, header.constructed, content⟩, rest)

def readAll {α : Type} (read : List UInt8 → Option (α × List UInt8)) :
    (rounds : Nat) → List UInt8 → Option (List α)
  | _, [] => some []
  | 0, _ :: _ => none
  | rounds + 1, bytes => do
      let (value, rest) ← read bytes
      let values ← readAll read rounds rest
      pure (value :: values)

def readOpenItems (bytes : List UInt8) : Option (List Item) :=
  readAll readOpenItem bytes.length bytes

end CertificateAudit.Der
