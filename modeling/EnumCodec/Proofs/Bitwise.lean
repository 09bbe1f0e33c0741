import EnumCodec.Constant.Bits
import Mathlib.Data.Int.Bitwise

/-!
# Endless rows of bits and words

The bitwise operations of `Bits` are those of the integers, and those of the words of a machine on
words.

* `Bits.ext` — an integer is given by its bits.
* `Bits.and_eq_land`, `Bits.or_eq_lor`, `Bits.xor_eq_xor`, `Bits.andNot_eq_ldiff` — what the
  operations are.
* `Bits.complement_within` — what is left of a complement within the width of a kind.
* `toInt_and`, `toInt_or`, `toInt_xor`, `toInt_not` — a word stands for the integer whose bits are
  those of the word, and its highest bit from there on.
-/

set_option autoImplicit false

namespace EnumCodec

namespace Bits

theorem power_eq (place : Nat) : power place = 2 ^ place := by
  simp [power, Nat.one_shiftLeft]

theorem bit_eq_testBit (a : Int) (i : Nat) : bit a i = a.testBit i := by
  cases a <;> rfl

/-- The sign of an integer is to be seen in its bits. -/
theorem exists_bit_ne (m n : Nat) : ∃ i, bit (.ofNat m) i ≠ bit (.negSucc n) i := by
  refine ⟨m + n, ?_⟩
  have hm : m < 2 ^ (m + n) :=
    Nat.lt_of_lt_of_le Nat.lt_two_pow_self (Nat.pow_le_pow_right (by omega) (by omega))
  have hn : n < 2 ^ (m + n) :=
    Nat.lt_of_lt_of_le Nat.lt_two_pow_self (Nat.pow_le_pow_right (by omega) (by omega))
  simp only [bit, Nat.testBit_lt_two_pow hm, Nat.testBit_lt_two_pow hn]
  decide

theorem ext {a b : Int} (h : ∀ i, bit a i = bit b i) : a = b := by
  cases a with
  | ofNat m =>
    cases b with
    | ofNat n => rw [Nat.eq_of_testBit_eq h]
    | negSucc n =>
      obtain ⟨i, hi⟩ := exists_bit_ne m n
      exact absurd (h i) hi
  | negSucc m =>
    cases b with
    | ofNat n =>
      obtain ⟨i, hi⟩ := exists_bit_ne n m
      exact absurd (h i).symm hi
    | negSucc n => rw [Nat.eq_of_testBit_eq fun i => Bool.not_inj (h i)]

theorem and_eq_land (a b : Int) : and a b = a.land b :=
  ext fun i => by
    rw [bit_and, bit_eq_testBit (a.land b), Int.testBit_land, bit_eq_testBit, bit_eq_testBit]

theorem or_eq_lor (a b : Int) : or a b = a.lor b :=
  ext fun i => by
    rw [bit_or, bit_eq_testBit (a.lor b), Int.testBit_lor, bit_eq_testBit, bit_eq_testBit]

theorem xor_eq_xor (a b : Int) : xor a b = a.xor b :=
  ext fun i => by
    rw [bit_xor, bit_eq_testBit (a.xor b), Int.testBit_lxor, bit_eq_testBit, bit_eq_testBit]

theorem andNot_eq_ldiff (a b : Int) : andNot a b = a.ldiff b :=
  ext fun i => by
    rw [bit_andNot, bit_eq_testBit (a.ldiff b), Int.testBit_ldiff, bit_eq_testBit, bit_eq_testBit]

/-- Within a width, the complement of what fits into it is what is missing to all bits. -/
theorem complement_within {w : Nat} {v : Int} (h0 : 0 ≤ v) (h : v < 2 ^ w) :
    and (complement v) (2 ^ w - 1) = 2 ^ w - 1 - v := by
  obtain ⟨m, rfl⟩ := Int.eq_ofNat_of_zero_le h0
  have hm : m < 2 ^ w := by exact_mod_cast h
  have hmask : (2 : Int) ^ w - 1 = Int.ofNat (2 ^ w - 1) := by
    rw [Int.ofNat_eq_natCast]
    push_cast [Nat.one_le_two_pow]
    rfl
  have hrest : (2 : Int) ^ w - 1 - m = Int.ofNat (2 ^ w - (m + 1)) := by
    rw [Int.ofNat_eq_natCast]
    push_cast [Nat.succ_le_of_lt hm]
    omega
  rw [hrest, hmask]
  refine ext fun i => ?_
  rw [bit_and, bit_complement]
  simp only [bit, Nat.testBit_two_pow_sub_succ hm, Nat.testBit_two_pow_sub_one, Bool.and_comm]

end Bits

section Words

variable {w : Nat}

/-- The bits of the integer that a word stands for. -/
theorem bit_toInt (a : BitVec w) (i : Nat) :
    Bits.bit a.toInt i = if i < w then a.getLsbD i else a.msb := by
  cases hmsb : a.msb with
  | false =>
    rw [BitVec.toInt_eq_toNat_of_msb hmsb]
    show a.getLsbD i = _
    split
    · rfl
    · exact BitVec.getLsbD_of_ge a i (by omega)
  | true =>
    -- the integer is the complement of the one that the turned word stands for
    have hval : a.toInt = Bits.complement (Int.ofNat (~~~a).toNat) := by
      have hlt := a.isLt
      rw [Bits.complement_eq, BitVec.toInt_eq_msb_cond, if_pos hmsb, Int.ofNat_eq_natCast,
        BitVec.toNat_not]
      omega
    rw [hval, Bits.bit_complement]
    show (!(~~~a).getLsbD i) = _
    rw [BitVec.getLsbD_not]
    split <;> rename_i hi <;> simp [hi]

theorem toInt_and (a b : BitVec w) : (a &&& b).toInt = Bits.and a.toInt b.toInt :=
  Bits.ext fun i => by
    rw [Bits.bit_and, bit_toInt, bit_toInt, bit_toInt, BitVec.getLsbD_and, BitVec.msb_and]
    split <;> rfl

theorem toInt_or (a b : BitVec w) : (a ||| b).toInt = Bits.or a.toInt b.toInt :=
  Bits.ext fun i => by
    rw [Bits.bit_or, bit_toInt, bit_toInt, bit_toInt, BitVec.getLsbD_or, BitVec.msb_or]
    split <;> rfl

theorem toInt_xor (a b : BitVec w) : (a ^^^ b).toInt = Bits.xor a.toInt b.toInt :=
  Bits.ext fun i => by
    rw [Bits.bit_xor, bit_toInt, bit_toInt, bit_toInt, BitVec.getLsbD_xor, BitVec.msb_xor]
    split <;> rfl

theorem toInt_not (hw : 0 < w) (a : BitVec w) : (~~~a).toInt = Bits.complement a.toInt :=
  Bits.ext fun i => by
    rw [Bits.bit_complement, bit_toInt, bit_toInt, BitVec.getLsbD_not, BitVec.msb_not]
    split <;> simp_all

end Words

end EnumCodec
