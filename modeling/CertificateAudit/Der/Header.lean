import CertificateAudit.Der.Number

/-!
The start of an encoded element: its tag and its length. Reading accepts tags of up to five
extra bytes and lengths that are longer than necessary; writing uses one tag byte and the
shortest length.
-/

namespace CertificateAudit.Der

inductive TagClass where
  | universal | application | contextSpecific | privateUse
deriving DecidableEq

def TagClass.ofByte (b : UInt8) : TagClass :=
  if b < 0x40 then .universal
  else if b < 0x80 then .application
  else if b < 0xc0 then .contextSpecific
  else .privateUse

def TagClass.name : TagClass → String
  | .universal => "Universal"
  | .application => "Application"
  | .contextSpecific => "ContextSpecific"
  | .privateUse => "Private"

structure Tag where
  cls : TagClass
  number : Nat
deriving DecidableEq

/-- Everything before the content; an absent length means that the content ends with an end
marker of its own. -/
structure Header where
  tag : Tag
  constructed : Bool
  length : Option Nat
deriving DecidableEq

def isConstructed (b : UInt8) : Bool :=
  b &&& 0x20 != 0

/-- Read a tag number spelled in seven-bit digits, of which only so many may follow. The
number keeps its lowest 32 bits. -/
def readTagNumber : (remaining : Nat) → (number : Nat) → List UInt8 → Option (Nat × List UInt8)
  | 0, _, _ => none
  | _ + 1, _, [] => none
  | remaining + 1, number, b :: rest =>
      let number := (number * 128 + b.toNat % 128) % 4294967296
      if b < 0x80 then some (number, rest) else readTagNumber remaining number rest

def readTag : List UInt8 → Option (Tag × Bool × List UInt8)
  | [] => none
  | b :: rest =>
      let number := b.toNat % 32
      if number = 31 then do
        let (number, rest) ← readTagNumber 5 0 rest
        pure (⟨.ofByte b, number⟩, isConstructed b, rest)
      else some (⟨.ofByte b, number⟩, isConstructed b, rest)

/-- Read the length: one byte below 128, or a count of length bytes. The count 0 leaves the
length open, the count 127 is reserved, and a length fits 64 bits. -/
def readLength : List UInt8 → Option (Option Nat × List UInt8)
  | [] => none
  | b :: rest =>
      if b < 0x80 then some (some b.toNat, rest)
      else if b = 0x80 then some (none, rest)
      else if b = 0xff then none
      else
        let count := b.toNat - 0x80
        let length := unsigned (rest.take count)
        if rest.length < count ∨ 18446744073709551616 ≤ length then none
        else some (some length, rest.drop count)

def readHeader (bytes : List UInt8) : Option (Header × List UInt8) := do
  let (tag, constructed, rest) ← readTag bytes
  let (length, rest) ← readLength rest
  if length = none ∧ constructed = false then none
  else some (⟨tag, constructed, length⟩, rest)

def encodeLength (length : Nat) : List UInt8 :=
  if length < 128 then [UInt8.ofNat length]
  else
    let bytes := bigEndian length
    UInt8.ofNat (0x80 + bytes.length) :: bytes

def encode (tagByte : UInt8) (content : List UInt8) : List UInt8 :=
  tagByte :: (encodeLength content.length ++ content)

end CertificateAudit.Der
