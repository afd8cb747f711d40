import CertificateAudit.Text.Utf8

/-!
ASCII text: one byte for each character, read back by both readings of UTF-8.
-/

namespace CertificateAudit.Text

/-- A text without any character beyond ASCII. -/
def IsAscii (text : List Char) : Prop :=
  ∀ c ∈ text, c.toNat < 0x80

instance (text : List Char) : Decidable (IsAscii text) :=
  List.decidableBAll _ text

/-- The bytes of an ASCII text. -/
def asciiBytes (text : List Char) : List UInt8 :=
  text.map fun c => UInt8.ofNat c.toNat

theorem asciiBytes_append (front back : List Char) :
    asciiBytes (front ++ back) = asciiBytes front ++ asciiBytes back := List.map_append

theorem toNat_asciiByte {c : Char} (ascii : c.toNat < 0x80) :
    (UInt8.ofNat c.toNat).toNat = c.toNat := by
  apply UInt8.toNat_ofNat_of_lt'
  exact Nat.lt_trans ascii (by decide)

namespace Utf8

theorem scan_asciiBytes {text : List Char} (ascii : IsAscii text) :
    scan none (asciiBytes text) = text.map some := by
  induction text with
  | nil => rfl
  | cons c text inductionHypothesis =>
      have value := toNat_asciiByte (ascii c List.mem_cons_self)
      have single : advance none (UInt8.ofNat c.toNat) = ([some c], none) := by
        have isAscii : UInt8.ofNat c.toNat < 0x80 := by
          rw [UInt8.lt_iff_toNat_lt, value]
          exact ascii c List.mem_cons_self
        simp only [advance, start, isAscii, if_true, value, Char.ofNat_toNat]
      have others := inductionHypothesis
        fun other membership => ascii other (List.mem_cons_of_mem c membership)
      have split : scan none (asciiBytes (c :: text)) =
          (advance none (UInt8.ofNat c.toNat)).1 ++
            scan (advance none (UInt8.ofNat c.toNat)).2 (asciiBytes text) := rfl
      rw [split, single, others]
      rfl

theorem decode?_asciiBytes {text : List Char} (ascii : IsAscii text) :
    decode? (asciiBytes text) = some text := by
  rw [decode?, scan_asciiBytes ascii]
  clear ascii
  induction text with
  | nil => rfl
  | cons c text inductionHypothesis => simp [inductionHypothesis]

theorem encode_of_isAscii {text : List Char} (ascii : IsAscii text) :
    encode text = asciiBytes text := by
  induction text with
  | nil => rfl
  | cons c text inductionHypothesis =>
      have isAscii : c.val.toNat ≤ 0x7f := Nat.le_of_lt_succ (ascii c List.mem_cons_self)
      have others := inductionHypothesis
        fun other membership => ascii other (List.mem_cons_of_mem c membership)
      rw [encode, List.flatMap_cons, ← encode, others, String.utf8EncodeChar, if_pos isAscii]
      rfl

end Utf8

end CertificateAudit.Text
