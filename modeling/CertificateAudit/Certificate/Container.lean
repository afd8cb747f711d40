import CertificateAudit.Der.Item

/-!
Small readers of the strict encoding from which certificates are read: each takes one element
off the front of a byte string and gives what is behind it.
-/

namespace CertificateAudit.Der

/-- The content of an element with the tag number. Neither its class nor whether it is
constructed is looked at. -/
def readContainer (number : Nat) (bytes : List UInt8) : Option (List UInt8 × List UInt8) := do
  let (item, rest) ← readItem bytes
  if item.tag.number = number then some (item.content, rest) else none

/-- The content of an element that is not made of elements. Its tag is not looked at. -/
def readPrimitive (bytes : List UInt8) : Option (List UInt8 × List UInt8) := do
  let (item, rest) ← readItem bytes
  if item.constructed then none else some (item.content, rest)

def hasZeroPadding : List UInt8 → Bool
  | [] => false
  | [unused] => unused == 0
  | unused :: bytes =>
      match bytes.getLast? with
      | none => false
      | some last => unused ≤ 8 && hasZeroBits unused.toNat last

def readBitString (bytes : List UInt8) : Option (List UInt8 × List UInt8) := do
  let (item, rest) ← readItem bytes
  if item.tag.number = 3 ∧ item.constructed = false ∧ hasZeroPadding item.content then
    some (item.content.drop 1, rest)
  else none

def readMany {α : Type} (read : List UInt8 → Option (α × List UInt8)) :
    (rounds : Nat) → List UInt8 → List α × List UInt8
  | 0, bytes => ([], bytes)
  | rounds + 1, bytes =>
      match read bytes with
      | none => ([], bytes)
      | some (value, rest) =>
          let (values, rest) := readMany read rounds rest
          (value :: values, rest)

end CertificateAudit.Der
