import EnumCodec.Constant.Evaluation
import EnumCodec.Proofs.Bitwise

/-!
# Words and instructions

The instructions of a machine that computes with signed words of 128 bits, what each gives and what
it would give if integers had no bounds.

* `Instr.Exact` — an instruction has lost nothing; `Instr.Defined` — the machine has a result at
  all.
* `Instr.exact_of_isWide` — where the integer that is meant is in range, nothing is lost.
* `shiftBack_eq_iff` — shifting to the left and back again gives the same word exactly if the first
  shift has lost nothing.
-/

set_option autoImplicit false

namespace EnumCodec

/-! ## The range of words -/

/-- A signed word of 128 bits. -/
abbrev Word := BitVec 128

theorem isWide_iff {v : Int} : isWide v = true ↔ -2 ^ 127 ≤ v ∧ v < 2 ^ 127 := by
  simp [isWide, Bits.power_eq]

theorem isWide_toInt (a : Word) : isWide a.toInt = true :=
  isWide_iff.2 ⟨a.le_toInt, BitVec.toInt_lt⟩

theorem bmod_of_isWide {v : Int} (h : isWide v = true) : v.bmod (2 ^ 128) = v := by
  obtain ⟨h1, h2⟩ := isWide_iff.1 h
  exact Int.bmod_eq_of_le_mul_two (by omega) (by omega)

theorem inRange_wide?_eq_ok {v n : Int} {cause : Overflow} (h : inRange (wide? v) cause = .ok n) :
    isWide v = true ∧ v = n := by
  unfold wide? at h
  split at h
  · rename_i hw
    exact ⟨hw, Except.ok.inj h⟩
  · cases h

theorem toInt_ofNat {n : Nat} (h : n < 2 ^ 127) : (BitVec.ofNat 128 n).toInt = n := by
  rw [BitVec.toInt_ofNat']
  exact bmod_of_isWide (isWide_iff.2 ⟨by omega, by omega⟩)

/-! ## Instructions -/

/-- An instruction and what it is applied to. -/
inductive Instr
  | neg (a : Word)
  | not (a : Word)
  | add (a b : Word)
  | sub (a b : Word)
  | mul (a b : Word)
  | div (a b : Word)
  | rem (a b : Word)
  | and (a b : Word)
  | or (a b : Word)
  | xor (a b : Word)
  | shiftLeft (a : Word) (count : UInt32)
  | shiftRight (a : Word) (count : UInt32)
deriving DecidableEq

namespace Instr

/-- The word that the machine gives; what does not fit into it is lost. -/
def result : Instr → Word
  | neg a => -a
  | not a => ~~~a
  | add a b => a + b
  | sub a b => a - b
  | mul a b => a * b
  | div a b => a.sdiv b
  | rem a b => a.srem b
  | and a b => a &&& b
  | or a b => a ||| b
  | xor a b => a ^^^ b
  | shiftLeft a count => a <<< count.toNat
  | shiftRight a count => a.sshiftRight count.toNat

/-- The integer that is meant. -/
def meaning : Instr → Int
  | neg a => -a.toInt
  | not a => -a.toInt - 1
  | add a b => a.toInt + b.toInt
  | sub a b => a.toInt - b.toInt
  | mul a b => a.toInt * b.toInt
  | div a b => a.toInt.tdiv b.toInt
  | rem a b => a.toInt.tmod b.toInt
  | and a b => a.toInt.land b.toInt
  | or a b => a.toInt.lor b.toInt
  | xor a b => a.toInt.xor b.toInt
  | shiftLeft a count => a.toInt * 2 ^ count.toNat
  | shiftRight a count => a.toInt.fdiv (2 ^ count.toNat)

/-- The machine gives the integer that is meant. -/
def Exact (i : Instr) : Prop := i.result.toInt = i.meaning

/-- The machine has a result: no word is divided by zero, or shifted by its width or more. -/
def Defined : Instr → Prop
  | div _ b | rem _ b => b ≠ 0
  | shiftLeft _ count | shiftRight _ count => count.toNat < 128
  | _ => True

instance : DecidablePred Exact := fun i => inferInstanceAs (Decidable (i.result.toInt = i.meaning))

instance : DecidablePred Defined := fun i => by
  cases i <;> unfold Defined <;> infer_instance

/-- What is meant is never out of range. -/
def Closed : Instr → Prop
  | not _ | rem _ _ | and _ _ | or _ _ | xor _ _ | shiftRight _ _ => True
  | _ => False

theorem exact_of_closed {i : Instr} (h : i.Closed) : i.Exact := by
  unfold Exact
  cases i with
  | not a => rw [result, meaning, toInt_not (by decide), Bits.complement_eq]
  | rem a b => exact BitVec.toInt_srem a b
  | and a b => rw [result, meaning, toInt_and, Bits.and_eq_land]
  | or a b => rw [result, meaning, toInt_or, Bits.or_eq_lor]
  | xor a b => rw [result, meaning, toInt_xor, Bits.xor_eq_xor]
  | shiftRight a count =>
    rw [result, meaning, BitVec.toInt_sshiftRight, Int.shiftRight_eq_div_pow,
      Int.fdiv_eq_ediv_of_nonneg _ (Int.pow_nonneg (by decide)), Int.natCast_pow]
    rfl
  | neg | add | sub | mul | div | shiftLeft => exact h.elim

/-- **What the machine gives is what is meant, wound round into the range.** -/
theorem toInt_result (i : Instr) : i.result.toInt = i.meaning.bmod (2 ^ 128) := by
  by_cases hc : i.Closed
  · rw [← exact_of_closed hc, bmod_of_isWide (isWide_toInt _)]
  · cases i with
    | neg a => exact BitVec.toInt_neg
    | add a b => exact BitVec.toInt_add a b
    | sub a b => exact BitVec.toInt_sub
    | mul a b => exact BitVec.toInt_mul a b
    | div a b => exact BitVec.toInt_sdiv a b
    | shiftLeft a count =>
      rw [result, meaning, BitVec.toInt_shiftLeft, BitVec.toInt_eq_toNat_bmod a, Nat.shiftLeft_eq]
      push_cast
      rw [Int.bmod_mul_bmod]
    | not | rem | and | or | xor | shiftRight => exact absurd trivial hc

/-- **Where the integer that is meant is in range, nothing is lost.** -/
theorem exact_of_isWide {i : Instr} (h : isWide i.meaning = true) : i.Exact := by
  rw [Exact, toInt_result, bmod_of_isWide h]

theorem exact_iff {i : Instr} : i.Exact ↔ isWide i.meaning = true := by
  refine ⟨fun h => ?_, exact_of_isWide⟩
  rw [← h]
  exact isWide_toInt _

end Instr

/-! ## When a result is out of range -/

theorem overflow_eq (v : Int) :
    (decide (v ≥ 2 ^ 127) || decide (v < -2 ^ 127)) = !isWide v := by
  rw [Bool.eq_iff_iff, Bool.not_eq_true', ← Bool.not_eq_true, isWide_iff]
  simp only [Bool.or_eq_true, decide_eq_true_eq]
  omega

theorem negOverflow_eq (a : Word) : a.negOverflow = !isWide (-a.toInt) := by
  obtain ⟨h1, h2⟩ := isWide_iff.1 (isWide_toInt a)
  rw [BitVec.negOverflow, Bool.eq_iff_iff, Bool.not_eq_true', ← Bool.not_eq_true, isWide_iff,
    beq_iff_eq]
  omega

/-- The only quotient of words that is out of range is that of the least one by minus one. -/
theorem isWide_tdiv_iff {a b : Word} :
    isWide (a.toInt.tdiv b.toInt) = true ↔ ¬ (a = BitVec.intMin 128 ∧ b = -1) := by
  refine ⟨fun h => ?_, fun h => ?_⟩
  · rintro ⟨rfl, rfl⟩
    revert h
    decide +kernel
  · rw [← BitVec.toInt_sdiv_of_ne_or_ne a b (by tauto)]
    exact isWide_toInt _

/-! ## Shifting to the left and back -/

/-- **A word comes back from a shift to the left exactly if the shift has lost nothing.** -/
theorem shiftBack_eq_iff {a : Word} {count : UInt32} (hcount : count.toNat < 128) :
    (Instr.shiftRight (Instr.shiftLeft a count).result count).result = a ↔
      isWide (a.toInt * 2 ^ count.toNat) = true := by
  have hne : (2 : Int) ^ count.toNat ≠ 0 := Int.ne_of_gt (Int.pow_pos (by decide))
  have hback : (Instr.shiftRight (Instr.shiftLeft a count).result count).result.toInt =
      (Instr.shiftLeft a count).result.toInt.fdiv (2 ^ count.toNat) :=
    Instr.exact_of_closed (i := .shiftRight _ _) trivial
  have hmeans : (Instr.shiftLeft a count).meaning = a.toInt * 2 ^ count.toNat := rfl
  rw [← BitVec.toInt_inj, hback, ← hmeans, ← Instr.exact_iff]
  constructor
  · intro h
    -- the word is a multiple of the power as well, so that the quotient leaves no remainder
    have hdvd : (2 : Int) ^ count.toNat ∣ (Instr.shiftLeft a count).result.toInt := by
      have hwound : (2 : Int) ^ 128 ∣
          (Instr.shiftLeft a count).result.toInt - a.toInt * 2 ^ count.toNat := by
        rw [Instr.toInt_result, hmeans]
        exact_mod_cast Int.dvd_bmod_sub_self
      have hpow : (2 : Int) ^ count.toNat ∣ 2 ^ 128 := pow_dvd_pow 2 (by omega)
      have hsum := Int.dvd_add (hpow.trans hwound) (Int.dvd_mul_left a.toInt (2 ^ count.toNat))
      rwa [Int.sub_add_cancel] at hsum
    obtain ⟨k, hk⟩ := hdvd
    rw [hk, Int.mul_fdiv_cancel_left _ hne] at h
    rw [Instr.Exact, hk, hmeans, h, Int.mul_comm]
  · intro h
    rw [h, hmeans]
    exact Int.mul_fdiv_cancel _ hne

end EnumCodec
