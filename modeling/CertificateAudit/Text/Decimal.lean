/-!
Whole numbers in decimal: writing with a least width, and the value of a run of digits.
-/

namespace CertificateAudit.Text.Decimal

/-- The decimal digits of a number, with leading zeros up to the width. -/
def padded (width n : Nat) : List Char :=
  let digits := Nat.toDigits 10 n
  List.replicate (width - digits.length) '0' ++ digits

def isDigit (c : Char) : Bool :=
  '0' ≤ c && c ≤ '9'

def value (digits : List Char) : Nat :=
  digits.foldl (fun n c => n * 10 + (c.toNat - '0'.toNat)) 0

end CertificateAudit.Text.Decimal
