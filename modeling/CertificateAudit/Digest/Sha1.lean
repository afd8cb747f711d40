import CertificateAudit.Chunks

/-!
The SHA-1 digest of a byte string: padding to blocks of sixteen words, the schedule of eighty
words for each block, and the eighty rounds over five words of state.
-/

namespace CertificateAudit.Digest.Sha1

structure State where
  a : UInt32
  b : UInt32
  c : UInt32
  d : UInt32
  e : UInt32

def initial : State :=
  ⟨0x67452301, 0xefcdab89, 0x98badcfe, 0x10325476, 0xc3d2e1f0⟩

def rotateLeft (word amount : UInt32) : UInt32 :=
  (word <<< amount) ||| (word >>> (32 - amount))

def wordOfBytes (bytes : List UInt8) : UInt32 :=
  bytes.foldl (fun word b => (word <<< 8) ||| b.toUInt32) 0

def bytesOfWord (word : UInt32) : List UInt8 :=
  [(word >>> 24).toUInt8, (word >>> 16).toUInt8, (word >>> 8).toUInt8, word.toUInt8]

/-- The message, a one bit, zeros up to eight bytes before the end of a block, and the length
of the message in bits. -/
def pad (message : List UInt8) : List UInt8 :=
  let bits := UInt64.ofNat (message.length * 8)
  let zeros := (119 - message.length % 64) % 64
  message ++ [(0x80 : UInt8)] ++ List.replicate zeros (0 : UInt8) ++
    [(bits >>> 56).toUInt8, (bits >>> 48).toUInt8, (bits >>> 40).toUInt8, (bits >>> 32).toUInt8,
      (bits >>> 24).toUInt8, (bits >>> 16).toUInt8, (bits >>> 8).toUInt8, bits.toUInt8]

/-- Add words to a schedule that is held newest first. -/
def extend : Nat → List UInt32 → List UInt32
  | 0, schedule => schedule
  | count + 1, schedule =>
      let word := schedule.getD 2 0 ^^^ schedule.getD 7 0 ^^^ schedule.getD 13 0 ^^^
        schedule.getD 15 0
      extend count (rotateLeft word 1 :: schedule)

def schedule (block : List UInt32) : List UInt32 :=
  (extend 64 block.reverse).reverse

/-- One round: the function and constant change after every twenty. -/
def round (state : State) (word : UInt32) (index : Nat) : State :=
  let (mixed, constant) : UInt32 × UInt32 :=
    if index < 20 then ((state.b &&& state.c) ||| (~~~state.b &&& state.d), 0x5a827999)
    else if index < 40 then (state.b ^^^ state.c ^^^ state.d, 0x6ed9eba1)
    else if index < 60 then
      ((state.b &&& state.c) ||| (state.b &&& state.d) ||| (state.c &&& state.d), 0x8f1bbcdc)
    else (state.b ^^^ state.c ^^^ state.d, 0xca62c1d6)
  ⟨rotateLeft state.a 5 + mixed + state.e + constant + word, state.a,
    rotateLeft state.b 30, state.c, state.d⟩

def absorb (state : State) (block : List UInt32) : State :=
  let worked := (schedule block).zipIdx.foldl (fun s (word, index) => round s word index) state
  ⟨state.a + worked.a, state.b + worked.b, state.c + worked.c, state.d + worked.d,
    state.e + worked.e⟩

def State.bytes (state : State) : List UInt8 :=
  [state.a, state.b, state.c, state.d, state.e].flatMap bytesOfWord

def digest (message : List UInt8) : List UInt8 :=
  let words := (chunksOfSucc 3 (pad message)).map wordOfBytes
  ((chunksOfSucc 15 words).foldl absorb initial).bytes

@[simp]
theorem length_digest (message : List UInt8) : (digest message).length = 20 :=
  rfl

end CertificateAudit.Digest.Sha1
