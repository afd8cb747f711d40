import CertificateAudit.Der.Charset
import CertificateAudit.Der.Clock
import CertificateAudit.Der.Item
import CertificateAudit.Der.ObjectId

/-!
Elements looked into: sequences and sets down to their leaves. `Element.read` takes one
element of stated length off a byte string. It holds the outermost element to a largest size and
to the strict encoding rules; what lies inside has to satisfy the looser ones of `Element.ofItem`.
-/

namespace CertificateAudit.Der

inductive Leaf where
  | integer (bytes : List UInt8)
  | bitString (unusedBits : UInt8) (bytes : List UInt8)
  | octetString (bytes : List UInt8)
  | characters (bytes : List UInt8)
  | objectId (bytes : List UInt8)
  | relativeObjectId (bytes : List UInt8)
  | enumerated (value : Nat)
  /-- An element of a class or number that has no reading here. -/
  | raw (bytes : List UInt8)
  /-- A truth value, a null, a time or an end marker: nothing is taken from it. -/
  | other
deriving DecidableEq

/-- An element. Only universal tags make sequences and sets. -/
inductive Element where
  | leaf (tag : Tag) (content : Leaf)
  | sequence (items : List Element)
  | set (items : List Element)

namespace Element

def cls : Element → TagClass
  | .leaf tag _ => tag.cls
  | .sequence _ | .set _ => .universal

def tagNumber : Element → Nat
  | .leaf tag _ => tag.number
  | .sequence _ => 16
  | .set _ => 17

def items? : Element → Option (List Element)
  | .sequence items => some items
  | _ => none

def bytes? : Element → Option (List UInt8)
  | .leaf _ content =>
      match content with
      | .integer bytes | .bitString _ bytes | .octetString bytes | .characters bytes
      | .raw bytes => some bytes
      | _ => none
  | _ => none

def objectIdText? : Element → Option String
  | .leaf _ (.objectId bytes) => some (ObjectId.text bytes)
  | .leaf _ (.relativeObjectId bytes) => some (ObjectId.relativeText bytes)
  | _ => none

def enumerated? : Element → Option Nat
  | .leaf _ (.enumerated value) => some value
  | _ => none

def integer? : Element → Option (List UInt8)
  | .leaf _ (.integer bytes) => some bytes
  | _ => none

end Element

def leafOf (number : Nat) (constructed : Bool) (content : List UInt8) : Option Leaf :=
  match number with
  | 0 => some .other
  | 1 => if constructed = false ∧ content.length = 1 then some .other else none
  | 2 => some (.integer content)
  | 3 =>
      match constructed, content with
      | false, unusedBits :: bytes => some (.bitString unusedBits bytes)
      | _, _ => none
  | 4 => some (.octetString content)
  | 5 => some .other
  | 6 => some (.objectId content)
  | 10 =>
      if constructed = false ∧ unsigned content < 4294967296 then
        some (.enumerated (unsigned content))
      else none
  | 13 => some (.relativeObjectId content)
  | 23 => (Clock.ofShortYear? content).map fun _ => .other
  | 24 => (Clock.ofLongYear? content).map fun _ => .other
  | number =>
      match Charset.allows? number content with
      | none => some (.raw content)
      | some allowed =>
          if allowed && !constructed then some (.characters content) else none

namespace Element

def ofItem : (depth : Nat) → Item → Option Element
  | 0, _ => none
  | depth + 1, item =>
      if item.tag.cls ≠ .universal then some (.leaf item.tag (.raw item.content))
      else if item.tag.number = 16 ∨ item.tag.number = 17 then
        if item.constructed then do
          let items ← (← readOpenItems item.content).mapM (ofItem depth)
          pure (if item.tag.number = 16 then .sequence items else .set items)
        else none
      else (leafOf item.tag.number item.constructed item.content).map (.leaf item.tag)

def hasCleanBits : List UInt8 → Bool
  | [] => false
  | unusedBits :: bytes =>
      unusedBits ≤ 7 && match bytes.getLast? with
        | none => true
        | some last => hasZeroBits unusedBits.toNat last

/-- An integer: not empty, and no leading zero byte that the next byte does not need. -/
def hasShortForm : List UInt8 → Bool
  | [] => false
  | 0 :: b :: _ => 0x80 ≤ b
  | _ => true

/-- The rules of the strict encoding for an outermost element. -/
def isStrict (item : Item) : Bool :=
  if item.tag.cls ≠ .universal then true
  else
    match item.tag.number with
    | 1 => item.content == [0x00] || item.content == [0xff]
    | 2 => hasShortForm item.content
    | 3 => !item.constructed && hasCleanBits item.content
    | 7 | 12 | 18 | 19 | 20 | 21 | 22 | 25 | 26 | 27 | 28 | 30 => !item.constructed
    | 23 | 24 => item.content.getLast? == some 0x5a
    | _ => true

def maxSize : Nat := 4294967295

def read (bytes : List UInt8) : Option (Element × List UInt8) := do
  let (item, rest) ← readItem bytes
  if item.content.length ≤ maxSize ∧ isStrict item then
    let element ← ofItem maxDepth item
    pure (element, rest)
  else none

end Element

end CertificateAudit.Der
