import CertificateAudit.Text.Utf8

/-!
The character sets of the string types, as tests on content bytes.
-/

namespace CertificateAudit.Der.Charset

open CertificateAudit.Text

def isNumeric (b : UInt8) : Bool :=
  (0x30 ≤ b && b ≤ 0x39) || b == 0x20

def isPrintable (b : UInt8) : Bool :=
  (0x41 ≤ b && b ≤ 0x5a) || (0x61 ≤ b && b ≤ 0x7a) || isNumeric b || b == 0x27 ||
  (0x28 ≤ b && b ≤ 0x29) || (0x2b ≤ b && b ≤ 0x2f) || b == 0x3a || b == 0x3d || b == 0x3f

def isVisible (b : UInt8) : Bool :=
  0x20 ≤ b && b ≤ 0x7f

def isAscii (b : UInt8) : Bool :=
  b < 0x80

/-- The code units of two-byte text, highest byte first; a last byte without partner is a unit
of its own. -/
def codeUnits : List UInt8 → List Nat
  | [] => []
  | [last] => [last.toNat]
  | high :: low :: rest => (high.toNat * 256 + low.toNat) :: codeUnits rest

def ofCodeUnits? : List Nat → Option (List Char)
  | [] => some []
  | unit :: rest =>
      if unit < 0xd800 ∨ 0xe000 ≤ unit then (ofCodeUnits? rest).map (Char.ofNat unit :: ·)
      else
        match rest with
        | [] => none
        | low :: rest =>
            if unit < 0xdc00 ∧ 0xdc00 ≤ low ∧ low < 0xe000 then
              (ofCodeUnits? rest).map
                (Char.ofNat (0x10000 + (unit - 0xd800) * 0x400 + (low - 0xdc00)) :: ·)
            else none

def twoByteText? (bytes : List UInt8) : Option (List Char) :=
  ofCodeUnits? (codeUnits bytes)

/-- Whether content bytes are allowed under a universal string tag; `none` for a tag that is
no string. Two-byte text has an even number of bytes and has to be well-formed UTF-8 as well. -/
def allows? (tagNumber : Nat) (content : List UInt8) : Option Bool :=
  match tagNumber with
  | 12 => some (Utf8.isValid content)
  | 18 => some (content.all isNumeric)
  | 19 => some (content.all isPrintable)
  | 20 | 21 | 26 => some (content.all isVisible)
  | 7 | 22 | 25 | 27 => some (content.all isAscii)
  | 28 => some true
  | 30 =>
      some (content.length % 2 == 0 && (twoByteText? content).isSome && Utf8.isValid content)
  | _ => none

end CertificateAudit.Der.Charset
