/-!
Byte strings as unsigned numbers, highest byte first: the value of any byte string, and the
one spelling of a number that has no leading zero byte.
-/

namespace CertificateAudit.Der

def unsigned (bytes : List UInt8) : Nat :=
  bytes.foldl (fun n b => n * 256 + b.toNat) 0

def trimZeros (bytes : List UInt8) : List UInt8 :=
  bytes.dropWhile (· == 0)

/-- The bytes of a number, none of them a leading zero; zero has no bytes. -/
def bigEndian (n : Nat) : List UInt8 :=
  if n = 0 then [] else bigEndian (n / 256) ++ [UInt8.ofNat (n % 256)]
termination_by n

def hasZeroBits (count : Nat) (b : UInt8) : Bool :=
  b.toNat % (1 <<< count) == 0

end CertificateAudit.Der
