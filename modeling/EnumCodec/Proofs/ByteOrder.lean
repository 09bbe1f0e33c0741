import Mathlib.Data.String.Basic
import Mathlib.Tactic.SplitIfs

/-!
# The order of the bytes of a text

The bytes of a text are those of its UTF-8 encoding.  Texts are ordered by their characters; the first
byte in which the encodings of two characters differ tells which character comes first, so that texts
compared byte by byte stand in the same order (`bytes_lt_iff`).
-/

set_option autoImplicit false

namespace EnumCodec

/-- The bytes of a text. -/
def bytes (s : String) : List UInt8 := s.toList.flatMap String.utf8EncodeChar

theorem byte_lt {m n : Nat} (hm : m < 256) (hn : n < 256) :
    UInt8.ofNat m < UInt8.ofNat n ↔ m < n := by
  rw [UInt8.lt_iff_toNat_lt, UInt8.toNat_ofNat_of_lt' hm, UInt8.toNat_ofNat_of_lt' hn]

theorem byte_eq {m n : Nat} (hm : m < 256) (hn : n < 256) :
    UInt8.ofNat m = UInt8.ofNat n ↔ m = n := by
  rw [← UInt8.toNat_inj, UInt8.toNat_ofNat_of_lt' hm, UInt8.toNat_ofNat_of_lt' hn]

/-- The encoding of the lesser character is less, whatever follows the two. -/
theorem utf8EncodeChar_lt {c d : Char} (h : c < d) (s t : List UInt8) :
    String.utf8EncodeChar c ++ s < String.utf8EncodeChar d ++ t := by
  have less : c.val.toNat < d.val.toNat := h
  have small : d.val.toNat < 0x110000 := by
    have valid := d.valid
    simp only [UInt32.isValidChar, Nat.isValidChar] at valid
    omega
  unfold String.utf8EncodeChar
  generalize c.val.toNat = m at less
  generalize d.val.toNat = n at less small
  -- the digits of the two numbers in base 64
  have m₁ := Nat.div_div_eq_div_mul m 64 64
  have m₂ := Nat.div_div_eq_div_mul m 4096 64
  have n₁ := Nat.div_div_eq_div_mul n 64 64
  have n₂ := Nat.div_div_eq_div_mul n 4096 64
  have m₃ : m / 262144 % 8 = m / 262144 := Nat.mod_eq_of_lt (by omega)
  have n₃ : n / 262144 % 8 = n / 262144 := Nat.mod_eq_of_lt (by omega)
  -- one case for each pair of lengths; an encoding is less by its first byte if it is shorter
  dsimp only
  split_ifs <;>
  · simp only [List.cons_append, List.nil_append, List.cons_lt_cons_iff]
    simp (disch := omega) only [byte_lt, byte_eq]
    omega

theorem bytes_lt_of_lt {s t : String} (h : s < t) : bytes s < bytes t := by
  have chars : s.toList < t.toList := h
  unfold bytes
  generalize s.toList = s, t.toList = t at chars
  induction chars with
  | @nil d t =>
    obtain ⟨b, more, eq⟩ := List.exists_cons_of_ne_nil (@String.utf8EncodeChar_ne_nil d)
    rw [List.flatMap_nil, List.flatMap_cons, eq]
    exact List.nil_lt_cons ..
  | rel h => exact utf8EncodeChar_lt h _ _
  | cons h ih => exact List.append_left_lt ih

/-- **Texts stand in the order of their bytes.** -/
theorem bytes_lt_iff {s t : String} : bytes s < bytes t ↔ s < t := by
  constructor
  · intro less
    apply Decidable.byContradiction
    intro notLess
    rcases eq_or_ne s t with rfl | ne
    · exact List.lt_irrefl _ less
    · exact List.lt_asymm less (bytes_lt_of_lt (lt_of_le_of_ne (not_lt.mp notLess) ne.symm))
  · exact bytes_lt_of_lt

end EnumCodec
