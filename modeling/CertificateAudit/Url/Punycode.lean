/-!
Punycode: a text with characters beyond ASCII as letters, digits and hyphens. The ASCII
characters stand first; the others follow as differences between code points, each in digits
whose weights adapt to what was written before.
-/

namespace CertificateAudit.Url.Punycode

def digit (value : Nat) : Char :=
  if value < 26 then Char.ofNat (97 + value) else Char.ofNat (22 + value)

def threshold (position bias : Nat) : Nat :=
  min 26 (max 1 (position - bias))

/-- Divide until the value is small; each division moves the bias by a position. -/
def shrink (value moved : Nat) : Nat × Nat :=
  if 455 < value then shrink (value / 35) (moved + 36) else (value, moved)
termination_by value
decreasing_by exact Nat.div_lt_self (by omega) (by omega)

/-- The bias after a difference was written; `count` characters have been written then. -/
def adapt (difference count : Nat) (first : Bool) : Nat :=
  let scaled := if first then difference / 700 else difference / 2
  let (value, moved) := shrink (scaled + scaled / count) 0
  moved + 36 * value / (value + 38)

def writeDifference (bias position difference : Nat) : List Char :=
  let least := threshold position bias
  if difference < least then [digit difference]
  else
    digit (least + (difference - least) % (36 - least)) ::
      writeDifference bias (position + 36) ((difference - least) / (36 - least))
termination_by difference
decreasing_by
  have positive : 1 ≤ threshold position bias := by unfold threshold; omega
  exact Nat.lt_of_le_of_lt (Nat.div_le_self _ _) (by omega)

structure Progress where
  written : List Char
  difference : Nat
  bias : Nat
  count : Nat

def Progress.visit (asciiCount codePoint : Nat) (progress : Progress) (c : Char) : Progress :=
  if c.toNat < codePoint then { progress with difference := progress.difference + 1 }
  else if c.toNat = codePoint then
    { written := progress.written ++ writeDifference progress.bias 36 progress.difference
      difference := 0
      bias := adapt progress.difference (progress.count + 1) (progress.count == asciiCount)
      count := progress.count + 1 }
  else progress

def insertSorted (n : Nat) : List Nat → List Nat
  | [] => [n]
  | m :: rest =>
      if n < m then n :: m :: rest else if n = m then m :: rest else m :: insertSorted n rest

/-- Write the given code points, which ascend, starting to count at `start`. -/
def writeCodePoints (text : List Char) (asciiCount : Nat) :
    List Nat → (start : Nat) → Progress → List Char
  | [], _, progress => progress.written
  | codePoint :: rest, start, progress =>
      let progress := { progress with
        difference := progress.difference + (codePoint - start) * (progress.count + 1) }
      let progress := text.foldl (Progress.visit asciiCount codePoint) progress
      writeCodePoints text asciiCount rest (codePoint + 1)
        { progress with difference := progress.difference + 1 }

def encode (text : List Char) : List Char :=
  let ascii := text.filter fun c => c.toNat < 128
  let codePoints := (text.filter fun c => 128 ≤ c.toNat).foldr
    (fun c sorted => insertSorted c.toNat sorted) []
  let front := if ascii.isEmpty then [] else ascii ++ ['-']
  front ++ writeCodePoints text ascii.length codePoints 128 ⟨[], 0, 72, ascii.length⟩

end CertificateAudit.Url.Punycode
