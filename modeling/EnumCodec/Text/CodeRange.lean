/-!
# Ranges of code points

A property of characters is given by the ranges of code points that have it.
-/

set_option autoImplicit false

namespace EnumCodec.Text

/-- Whether the number is that of a character: the surrogates are not. -/
def isScalar (n : Nat) : Bool := n ≤ 0x10ffff && !(0xd800 ≤ n && n < 0xe000)

/-- The number of a character, as a literal gives it: a word of 32 bits. -/
abbrev CharNumber := Fin UInt32.size

theorem lt_size_of_isScalar {n : Nat} (h : isScalar n = true) : n < UInt32.size := by
  have := (Bool.and_eq_true_iff.1 h).1
  exact Nat.lt_of_le_of_lt (of_decide_eq_true this) (by decide)

/-- The first and the last code point of a range. -/
abbrev CodeRange := Nat × Nat

/-- Whether the character lies in one of the ranges. -/
def inRanges (ranges : List CodeRange) (c : Char) : Bool :=
  ranges.any fun r => r.1 ≤ c.toNat && c.toNat ≤ r.2

theorem inRanges_iff {ranges : List CodeRange} {c : Char} :
    inRanges ranges c = true ↔ ∃ r ∈ ranges, r.1 ≤ c.toNat ∧ c.toNat ≤ r.2 := by
  simp [inRanges]

end EnumCodec.Text
