import CertificateAudit.Text.Blank
import CertificateAudit.Text.Hex

/-!
Object identifiers: the arcs their content bytes spell, and the dotted text.
-/

namespace CertificateAudit.Der.ObjectId

open CertificateAudit.Text

def readArcs : (opened : Option Nat) → List UInt8 → List Nat
  | none, [] => []
  | some arc, [] => [arc]
  | opened, b :: rest =>
      -- A value keeps 64 bits.
      let arc := (opened.getD 0 * 128 + b.toNat % 128) % 18446744073709551616
      if b < 0x80 then arc :: readArcs none rest else readArcs (some arc) rest

/-- The longest run of bytes that ends an arc, counting the byte that ends it. -/
def longestArc : (run longest : Nat) → List UInt8 → Nat
  | _, longest, [] => longest
  | run, longest, b :: rest =>
      if b < 0x80 then longestArc 0 (max longest (run + 1)) rest
      else longestArc (run + 1) longest rest

def dotted (bytes spelled : List UInt8) (first : List Nat) : String :=
  -- An arc of more than 64 bits has no decimal text.
  if 64 < 7 * longestArc 0 0 spelled then
    joinWith " " (bytes.map fun b => String.ofList (Hex.lower [b]))
  else joinWith "." ((first ++ readArcs none spelled).map toString)

/-- The text of an object identifier. The first byte gives two arcs, except that a lone zero
byte gives one. -/
def text : List UInt8 → String
  | [] => ""
  | [0] => "0"
  | b :: rest => dotted (b :: rest) rest [b.toNat / 40, b.toNat % 40]

def relativeText (bytes : List UInt8) : String :=
  dotted bytes bytes []

def encodeArc (arc : Nat) : List UInt8 :=
  highDigits (arc / 128) ++ [UInt8.ofNat (arc % 128)]
where
  highDigits (n : Nat) : List UInt8 :=
    if n = 0 then [] else highDigits (n / 128) ++ [UInt8.ofNat (128 + n % 128)]

def encode : List Nat → List UInt8
  | first :: second :: arcs => UInt8.ofNat (first * 40 + second) :: arcs.flatMap encodeArc
  | _ => []

end CertificateAudit.Der.ObjectId
