/-!
UTF-8: the strict reading, which refuses ill-formed bytes, the lenient reading, which puts
U+FFFD for each ill-formed stretch, and the writing. Both readings come from one scan that
names the characters and marks the ill-formed stretches.
-/

namespace CertificateAudit.Text.Utf8

/-- A sequence whose lead byte has been read: the value bits so far, how many bytes are still
to come (at least one), and the range the next of them must lie in. -/
structure Partial where
  value : Nat
  missing : Nat
  lowest : UInt8
  highest : UInt8

/-- What one byte settles: the characters and ill-formed stretches (`none`) that end with it,
and the sequence that stays open behind it. -/
abbrev Step := List (Option Char) × Option Partial

def start (b : UInt8) : Step :=
  -- The ranges rule out long spellings, surrogates and values above U+10FFFF.
  if b < 0x80 then ([some (Char.ofNat b.toNat)], none)
  else if b < 0xc2 then ([none], none)
  else if b < 0xe0 then ([], some ⟨b.toNat - 0xc0, 1, 0x80, 0xbf⟩)
  else if b = 0xe0 then ([], some ⟨0, 2, 0xa0, 0xbf⟩)
  else if b = 0xed then ([], some ⟨0xd, 2, 0x80, 0x9f⟩)
  else if b < 0xf0 then ([], some ⟨b.toNat - 0xe0, 2, 0x80, 0xbf⟩)
  else if b = 0xf0 then ([], some ⟨0, 3, 0x90, 0xbf⟩)
  else if b < 0xf4 then ([], some ⟨b.toNat - 0xf0, 3, 0x80, 0xbf⟩)
  else if b = 0xf4 then ([], some ⟨4, 3, 0x80, 0x8f⟩)
  else ([none], none)

/-- Read a byte. One that does not continue the open sequence ends it as ill-formed and is
read again as a start. -/
def advance (opened : Option Partial) (b : UInt8) : Step :=
  match opened with
  | none => start b
  | some sequence =>
      if sequence.lowest ≤ b ∧ b ≤ sequence.highest then
        let value := sequence.value * 64 + (b.toNat - 0x80)
        if sequence.missing ≤ 1 then ([some (Char.ofNat value)], none)
        else ([], some ⟨value, sequence.missing - 1, 0x80, 0xbf⟩)
      else
        let (found, opened) := start b
        (none :: found, opened)

def scan (opened : Option Partial) : List UInt8 → List (Option Char)
  | [] => if opened.isSome then [none] else []
  | b :: rest =>
      let (found, opened) := advance opened b
      found ++ scan opened rest

def decode? (bytes : List UInt8) : Option (List Char) :=
  (scan none bytes).mapM id

def decodeLossy (bytes : List UInt8) : List Char :=
  (scan none bytes).map fun found => found.getD '\uFFFD'

def textFront (bytes : List UInt8) : List Char :=
  ((scan none bytes).takeWhile Option.isSome).filterMap id

def encode (text : List Char) : List UInt8 :=
  text.flatMap String.utf8EncodeChar

def text? (bytes : List UInt8) : Option String :=
  (decode? bytes).map String.ofList

def isValid (bytes : List UInt8) : Bool :=
  (decode? bytes).isSome

end CertificateAudit.Text.Utf8
