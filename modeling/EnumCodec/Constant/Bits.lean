/-!
# Bitwise operations on integers

An integer is read as an endless row of bits in two's complement, so that the bits of a negative one
are all set from some place on.  Each operation is given on the numbers behind the two signs; the
`bit_` lemmas say what it does to every bit.
-/

set_option autoImplicit false

namespace EnumCodec.Bits

/-- The bit of an integer at a place, the lowest one at place zero. -/
def bit : Int → Nat → Bool
  | .ofNat m, i => m.testBit i
  | .negSucc m, i => !m.testBit i

/-- The integer whose only bit is the one at a place. -/
def power (place : Nat) : Int := Int.ofNat (1 <<< place)

/-- The number with the bits of `m` that `n` does not have. -/
def without (m n : Nat) : Nat := m ^^^ (m &&& n)

/-- The integer with all bits turned round. -/
def complement : Int → Int
  | .ofNat m => .negSucc m
  | .negSucc m => .ofNat m

/-- The bits that both integers have. -/
def and : Int → Int → Int
  | .ofNat m, .ofNat n => .ofNat (m &&& n)
  | .ofNat m, .negSucc n => .ofNat (without m n)
  | .negSucc m, .ofNat n => .ofNat (without n m)
  | .negSucc m, .negSucc n => .negSucc (m ||| n)

/-- The bits that one of the integers has. -/
def or : Int → Int → Int
  | .ofNat m, .ofNat n => .ofNat (m ||| n)
  | .ofNat m, .negSucc n => .negSucc (without n m)
  | .negSucc m, .ofNat n => .negSucc (without m n)
  | .negSucc m, .negSucc n => .negSucc (m &&& n)

/-- The bits that exactly one of the integers has. -/
def xor : Int → Int → Int
  | .ofNat m, .ofNat n => .ofNat (m ^^^ n)
  | .ofNat m, .negSucc n => .negSucc (m ^^^ n)
  | .negSucc m, .ofNat n => .negSucc (m ^^^ n)
  | .negSucc m, .negSucc n => .ofNat (m ^^^ n)

/-- The bits of the first integer that the second one does not have. -/
def andNot (a b : Int) : Int := and a (complement b)

theorem testBit_without (m n i : Nat) :
    (without m n).testBit i = (m.testBit i && !n.testBit i) := by
  simp only [without, Nat.testBit_xor, Nat.testBit_and]
  cases m.testBit i <;> cases n.testBit i <;> rfl

@[simp] theorem bit_complement (a : Int) (i : Nat) : bit (complement a) i = !bit a i := by
  cases a <;> simp [bit, complement]

@[simp] theorem bit_and (a b : Int) (i : Nat) : bit (and a b) i = (bit a i && bit b i) := by
  cases a <;> cases b <;> simp [bit, and, testBit_without, Bool.and_comm]

@[simp] theorem bit_or (a b : Int) (i : Nat) : bit (or a b) i = (bit a i || bit b i) := by
  cases a <;> cases b <;> simp [bit, or, testBit_without, Bool.or_comm]

@[simp] theorem bit_xor (a b : Int) (i : Nat) :
    bit (xor a b) i = (bit a i ^^ bit b i) := by
  cases a <;> cases b <;> simp [bit, xor]

@[simp] theorem bit_andNot (a b : Int) (i : Nat) :
    bit (andNot a b) i = (bit a i && !bit b i) := by
  simp [andNot]

theorem complement_eq (a : Int) : complement a = -a - 1 := by
  cases a with
  | ofNat m => simp [complement, Int.negSucc_eq]; omega
  | negSucc m => simp [complement, Int.negSucc_eq]

end EnumCodec.Bits
