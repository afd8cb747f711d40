/-!
Bytes written as two hexadecimal digits each.
-/

namespace CertificateAudit.Text.Hex

def digitsOf (digits : List Char) (b : UInt8) : List Char :=
  [digits.getD (b.toNat / 16) '0', digits.getD (b.toNat % 16) '0']

def lowerDigits : List Char := "0123456789abcdef".toList

def upperDigits : List Char := "0123456789ABCDEF".toList

def lower (bytes : List UInt8) : List Char :=
  bytes.flatMap (digitsOf lowerDigits)

def upper (bytes : List UInt8) : List Char :=
  bytes.flatMap (digitsOf upperDigits)

def digit? (c : Char) : Option Nat :=
  if '0' ≤ c ∧ c ≤ '9' then some (c.toNat - '0'.toNat)
  else if 'a' ≤ c ∧ c ≤ 'f' then some (c.toNat - 'a'.toNat + 10)
  else if 'A' ≤ c ∧ c ≤ 'F' then some (c.toNat - 'A'.toNat + 10)
  else none

/-- Read pairs of digits back; an odd number of digits or any other character is refused. -/
def decode? : List Char → Option (List UInt8)
  | [] => some []
  | [_] => none
  | high :: low :: rest => do
      let high ← digit? high
      let low ← digit? low
      let bytes ← decode? rest
      pure (UInt8.ofNat (high * 16 + low) :: bytes)

end CertificateAudit.Text.Hex
