import EnumCodec.Proofs.FittingValues
import EnumCodec.Proofs.KindRange

/-!
# Operands with and without a kind

Where one operand of an operator has a kind and the other has none, the result has that kind and lies
in its range.  Only for a few operators does this say that the operand without a kind lies there too.

* `IntKind.contains_iff_bit` — the range of a kind, in the bits of an integer.
* `Scope.Mixed` — the values of such operands.
* `BinaryOp.showsRange` — the operators whose results say where the operand without a kind lies.
* `Scope.Mixed.eval_eq_ok_iff`, `Scope.Mixed.problem_of_eval` — which results there are, and what is
  wrong where there is none.
* `Scope.Mixed.contains_of_eval`, `exists_hidden` — one operator after the other: an operand out of
  range is found out, or there is one that is not.
* `Scope.eval_mixed` — all of this, for every operator but a shift.
-/

set_option autoImplicit false

namespace EnumCodec

/-! ## The bits of a kind -/

namespace Bits

theorem testBit_eq_false {m p i : Nat} (h : m < 2 ^ p) (far : p ≤ i) : m.testBit i = false :=
  Nat.testBit_lt_two_pow (h.trans_le (Nat.pow_le_pow_right (by decide) far))

/-- As far from a place as the number is large, none of its bits is set. -/
theorem testBit_add_self (p m : Nat) : m.testBit (p + m) = false :=
  testBit_eq_false Nat.lt_two_pow_self (Nat.le_add_left m p)

end Bits

namespace IntKind

open Bits (testBit_eq_false testBit_add_self)

variable {k : IntKind} {a b : Int} {m : Nat}

/-- The place from which on all bits of an integer of the kind are alike. -/
def place (k : IntKind) : Nat := if k.isSigned then k.bits - 1 else k.bits

theorem min_eq (k : IntKind) : k.min = if k.isSigned then -2 ^ k.place else 0 := by
  cases k <;> rfl

theorem max_eq (k : IntKind) : k.max = 2 ^ k.place - 1 := by
  cases k <;> rfl

theorem contains_ofNat : k.contains (.ofNat m) = true ↔ m < 2 ^ k.place := by
  have power : ((2 ^ k.place : Nat) : Int) = 2 ^ k.place := by push_cast; rfl
  rw [contains_iff, min_eq, max_eq, Int.ofNat_eq_natCast]
  split <;> omega

theorem contains_negSucc :
    k.contains (.negSucc m) = true ↔ k.isSigned = true ∧ m < 2 ^ k.place := by
  have power : ((2 ^ k.place : Nat) : Int) = 2 ^ k.place := by push_cast; rfl
  rw [contains_iff, min_eq, max_eq, Int.negSucc_eq]
  split <;> rename_i signed
  · simp only [signed, true_and]
    omega
  · simp only [signed, Bool.false_eq_true, false_and, iff_false]
    omega

/-- **From the place of the kind on, the bits of an integer of the kind are those of its sign.** -/
theorem contains_iff_bit :
    k.contains a = true ↔ ∀ i, k.place ≤ i → Bits.bit a i = (k.isSigned && Bits.bit a k.place) := by
  cases a with
  | ofNat m =>
    have sign := testBit_add_self k.place m
    rw [contains_ofNat]
    simp only [Bits.bit]
    constructor
    · intro h i hi
      rw [testBit_eq_false h hi, testBit_eq_false h le_rfl, Bool.and_false]
    · intro h
      rw [h _ (Nat.le_add_right _ m)] at sign
      exact Nat.lt_pow_two_of_testBit m fun i hi => (h i hi).trans sign
  | negSucc m =>
    have sign := testBit_add_self k.place m
    rw [contains_negSucc]
    simp only [Bits.bit]
    constructor
    · rintro ⟨signed, h⟩ i hi
      rw [testBit_eq_false h hi, testBit_eq_false h le_rfl, signed]
      rfl
    · intro h
      rw [← Bool.not_eq_true', h _ (Nat.le_add_right _ m)] at sign
      exact ⟨(Bool.and_eq_true_iff.1 sign).1,
        Nat.lt_pow_two_of_testBit m fun i hi => by
          rw [← Bool.not_eq_true', h i hi, sign]⟩

/-- An exclusive or turns the high bits of both operands, or of none. -/
theorem contains_of_xor (h : k.contains (Bits.xor a b) = true) :
    k.contains a = true ↔ k.contains b = true := by
  simp only [contains_iff_bit, Bits.bit_xor] at *
  constructor <;> grind

/-- The bits of an integer of a kind without negative integers are above those of its parts. -/
theorem contains_of_or (unsigned : k.isSigned = false) (h : k.contains (Bits.or a b) = true) :
    k.contains a = true ∧ k.contains b = true := by
  simp only [contains_iff_bit, unsigned, Bool.false_and, Bits.bit_or, Bool.or_eq_false_iff] at h ⊢
  exact ⟨fun i hi => (h i hi).1, fun i hi => (h i hi).2⟩

theorem contains_of_andNot (unsigned : k.isSigned = false) (hb : k.contains b = true)
    (h : k.contains (Bits.andNot a b) = true) : k.contains a = true := by
  simp only [contains_iff_bit, unsigned, Bool.false_and, Bits.bit_andNot] at *
  intro i hi
  simpa [hb i hi] using h i hi

theorem isWide_of_contains (h : k.contains a = true) : isWide a = true := by
  obtain ⟨lo, hi⟩ := contains_iff.1 h
  obtain ⟨least, greatest⟩ := k.within_words
  exact isWide_iff.2 ⟨by omega, by omega⟩

end IntKind

/-! ## Operators -/

namespace BinaryOp

/-- Whether an operator shifts its left operand. -/
def isShift : BinaryOp → Bool
  | shiftLeft | shiftRight => true
  | _ => false

/-- Whether a result in the range of the kind says that the operand without a kind is in that range
too, on either side of the operator. -/
def showsRange (op : BinaryOp) (k : IntKind) (untypedFirst : Bool) : Bool :=
  match op with
  | xor => true
  | or => !k.isSigned
  | andNot => untypedFirst && !k.isSigned
  | _ => op.isBoolean

variable {op : BinaryOp} {k : IntKind} {untypedFirst : Bool}

theorem isShift_of_showsRange (shows : op.showsRange k untypedFirst = true) : op.isShift = false := by
  cases op with
  | shiftLeft | shiftRight => cases shows
  | _ => rfl

theorem isBoolean_of_hides (hides : op.showsRange k untypedFirst = false) : op.isBoolean = false := by
  cases op with
  | andAnd | orOr | equal | notEqual | less | lessEqual | greater | greaterEqual => cases hides
  | _ => rfl

end BinaryOp

theorem integerResult_error {op : BinaryOp} {a b : Int} {problem : EvalProblem}
    (h : integerResult op a b = .error problem) : ∃ cause, problem = .overflow cause := by
  have of_inRange {n : Option Int} {cause : Overflow} (h : inRange n cause = .error problem) :
      ∃ cause, problem = .overflow cause := by
    cases n <;> cases h
    exact ⟨cause, rfl⟩
  cases op with
  | add | sub | mul => exact of_inRange h
  | quotient | remainder =>
    rw [integerResult] at h
    split at h
    · cases h
      exact ⟨_, rfl⟩
    · exact of_inRange h
  | and | or | xor | andNot => cases h
  | _ =>
    cases h
    exact ⟨_, rfl⟩

theorem convert_error {n : Int} {k : IntKind} {problem : EvalProblem}
    (h : convert n k = .error problem) : ∃ cause, problem = .overflow cause := by
  unfold convert at h
  split at h <;> cases h
  exact ⟨_, rfl⟩

namespace Scope

variable {scope : Scope} {iota : Nat} {k : IntKind} {untypedFirst : Bool} {left right : Expr}
  {op : BinaryOp} {a b : Int}

/-- The operands have the values `a` and `b`, one of them of the kind `k` and the other without a
kind. -/
structure Mixed (scope : Scope) (iota : Nat) (k : IntKind) (untypedFirst : Bool) (left right : Expr)
    (a b : Int) : Prop where
  left : scope.eval iota left = .ok ⟨a, if untypedFirst then none else some k⟩
  right : scope.eval iota right = .ok ⟨b, if untypedFirst then some k else none⟩

namespace Mixed

theorem eval_eq (h : scope.Mixed iota k untypedFirst left right a b) (notShift : op.isShift = false) :
    scope.eval iota (.binary op left right) =
      if op.isBoolean then .error (.unsupported (.booleanExpression (.binary op left right)))
      else (integerResult op a b).bind fun n => convert n k := by
  have common : commonKind (if untypedFirst then none else some k)
      (if untypedFirst then some k else none) = .ok (some k) := by cases untypedFirst <;> rfl
  rw [eval, h.left, h.right]
  split
  · rfl
  · dsimp only
    unfold binaryValue
    split
    · cases notShift
    · cases notShift
    · rw [common]
      cases integerResult op a b <;> rfl

/-- The results: what is exact and in the range of the kind.  A remainder needs its quotient. -/
theorem eval_eq_ok_iff (h : scope.Mixed iota k untypedFirst left right a b)
    (notShift : op.isShift = false) {v : Value} :
    scope.eval iota (.binary op left right) = .ok v ↔
      v.kind = some k ∧ exactResult? op a b = some v.value ∧ k.contains v.value = true ∧
      (op = .remainder → isWide (a.tdiv b) = true) := by
  rw [h.eval_eq notShift]
  constructor
  · intro eq
    split at eq
    · cases eq
    cases result : integerResult op a b with
    | error problem =>
      rw [result] at eq
      cases eq
    | ok n =>
      rw [result] at eq
      obtain ⟨rfl, inKind⟩ := convert_eq_ok eq
      have contained := inKind k rfl
      have exact_result := integerResult_exact result
      refine ⟨rfl, exact_result, contained, fun remainder => ?_⟩
      rw [integerResult_of_exact exact_result (IntKind.isWide_of_contains contained)] at result
      by_contra narrow
      rw [if_pos ⟨remainder, Bool.not_eq_true _ ▸ narrow⟩] at result
      cases result
  · rintro ⟨kind, exact_result, contained, quotient⟩
    have computed : integerResult op a b = .ok v.value := by
      rw [integerResult_of_exact exact_result (IntKind.isWide_of_contains contained),
        if_neg fun refused => by simp [quotient refused.1] at refused]
    rw [isBoolean_of_exactResult? exact_result, if_neg Bool.false_ne_true, computed]
    obtain ⟨n, _⟩ := v
    cases kind
    exact if_pos contained

theorem problem_of_eval (h : scope.Mixed iota k untypedFirst left right a b)
    (notShift : op.isShift = false) {problem : EvalProblem}
    (failed : scope.eval iota (.binary op left right) = .error problem) :
    (op.isBoolean = true ∧ problem = .unsupported (.booleanExpression (.binary op left right))) ∨
    ∃ cause, problem = .overflow cause := by
  rw [h.eval_eq notShift] at failed
  split at failed
  · rename_i boolean
    cases failed
    exact .inl ⟨boolean, rfl⟩
  · refine .inr ?_
    cases result : integerResult op a b with
    | error e =>
      rw [result] at failed
      cases failed
      exact integerResult_error result
    | ok n =>
      rw [result] at failed
      exact convert_error failed

theorem contains_typed (hs : scope.InKind) (h : scope.Mixed iota k untypedFirst left right a b) :
    k.contains (if untypedFirst then b else a) = true := by
  cases untypedFirst with
  | false => exact inKind_of_eval hs h.left k rfl
  | true => exact inKind_of_eval hs h.right k rfl

/-- A result of one of the operators that show the range: the bits of the operand without a kind are
those of an integer of the kind. -/
theorem contains_of_eval (shows : op.showsRange k untypedFirst = true) (hs : scope.InKind)
    (h : scope.Mixed iota k untypedFirst left right a b) {v : Value}
    (result : scope.eval iota (.binary op left right) = .ok v) :
    k.contains (if untypedFirst then a else b) = true := by
  have typed := h.contains_typed hs
  obtain ⟨-, exact_result, contained, -⟩ :=
    (h.eval_eq_ok_iff (BinaryOp.isShift_of_showsRange shows)).1 result
  cases op with
  | xor =>
    rw [← Option.some.inj exact_result, ← Bits.xor_eq_xor] at contained
    cases untypedFirst with
    | false => exact (IntKind.contains_of_xor contained).1 typed
    | true => exact (IntKind.contains_of_xor contained).2 typed
  | or =>
    rw [← Option.some.inj exact_result, ← Bits.or_eq_lor] at contained
    have parts := IntKind.contains_of_or (by simpa [BinaryOp.showsRange] using shows) contained
    cases untypedFirst with
    | false => exact parts.2
    | true => exact parts.1
  | andNot =>
    obtain ⟨rfl, unsigned⟩ := Bool.and_eq_true_iff.1 shows
    rw [← Option.some.inj exact_result, ← Bits.andNot_eq_ldiff] at contained
    exact IntKind.contains_of_andNot (by simpa using unsigned) typed contained
  | andAnd | orOr | equal | notEqual | less | lessEqual | greater | greaterEqual => cases exact_result
  | _ => cases shows

end Mixed

/-! ## Operands out of range -/

/-- A scope with a constant of the kind `k` and one without a kind. -/
def withConstants (k : IntKind) (typed untyped : Int) : Scope where
  constant? name :=
    if name = "Typed" then some ⟨typed, some k⟩
    else if name = "Untyped" then some ⟨untyped, none⟩ else none
  typeMeaning := TypeMeaning.predeclared

/-- The name of one of the two constants, on one of the two sides of an operator. -/
def constantName (untyped : Bool) : Expr := .name ⟨if untyped then "Untyped" else "Typed", ⟨1, 1⟩⟩

theorem inKind_withConstants {typed untyped : Int} (h : k.contains typed = true) :
    (withConstants k typed untyped).InKind := by
  intro name v found kind hkind
  unfold withConstants at found
  dsimp only at found
  split_ifs at found <;> cases found <;> cases hkind
  exact h

theorem mixed_withConstants (k : IntKind) (untypedFirst : Bool) (typed untyped : Int) :
    (withConstants k typed untyped).Mixed 0 k untypedFirst (constantName untypedFirst)
      (constantName !untypedFirst) (if untypedFirst then untyped else typed)
      (if untypedFirst then typed else untyped) := by
  cases untypedFirst <;> exact ⟨rfl, rfl⟩

/-- A result that does not show the operand without a kind. -/
structure Hidden where
  typed : Int
  untyped : Int
  result : Int

/-- Next to the bounds of the kind there is an operand out of range that an operator brings back: by
one step over the bound, by a factor or a mask that keeps nothing of it, or by a division. -/
def hidden (op : BinaryOp) (k : IntKind) (untypedFirst : Bool) : Hidden :=
  match op, untypedFirst with
  | .add, _ => ⟨1, k.min - 1, k.min⟩
  | .sub, false => ⟨k.min, k.min - 1, 1⟩
  | .sub, true => ⟨1, k.max + 1, k.max⟩
  | .quotient, true => ⟨2, k.max + 1, (k.max + 1) / 2⟩
  | .remainder, true => ⟨1, k.max + 1, 0⟩
  | .or, _ => ⟨-1, k.max + 1, -1⟩
  | .andNot, true => ⟨-1, k.max + 1, 0⟩
  | _, _ => ⟨0, k.max + 1, 0⟩

theorem contains_hidden (k : IntKind) (hides : op.showsRange k untypedFirst = false) :
    k.contains (hidden op k untypedFirst).typed = true ∧
    k.contains (hidden op k untypedFirst).untyped = false ∧
    k.contains (hidden op k untypedFirst).result = true := by
  cases op <;> cases untypedFirst <;> cases k <;> revert hides <;> decide +kernel

theorem integerResult_hidden (k : IntKind) (notShift : op.isShift = false)
    (hides : op.showsRange k untypedFirst = false) :
    integerResult op
      (if untypedFirst then (hidden op k untypedFirst).untyped else (hidden op k untypedFirst).typed)
      (if untypedFirst then (hidden op k untypedFirst).typed else (hidden op k untypedFirst).untyped) =
      .ok (hidden op k untypedFirst).result := by
  cases op with
  | shiftLeft | shiftRight => cases notShift
  | xor | andAnd | orOr | equal | notEqual | less | lessEqual | greater | greaterEqual => cases hides
  | _ => cases untypedFirst <;> cases k <;> rfl

/-- An operator that does not show the range gives a result in range from an operand that is not. -/
theorem exists_hidden (k : IntKind) (notShift : op.isShift = false)
    (hides : op.showsRange k untypedFirst = false) :
    ∃ (scope : Scope) (left right : Expr) (a b : Int) (v : Value),
      scope.InKind ∧ scope.Mixed 0 k untypedFirst left right a b ∧
      scope.eval 0 (.binary op left right) = .ok v ∧
      k.contains (if untypedFirst then a else b) = false := by
  obtain ⟨typed, untyped, result⟩ := contains_hidden k hides
  have operands := mixed_withConstants k untypedFirst (hidden op k untypedFirst).typed
    (hidden op k untypedFirst).untyped
  refine ⟨_, _, _, _, _, ⟨(hidden op k untypedFirst).result, some k⟩, inKind_withConstants typed,
    operands, ?_, ?_⟩
  · rw [operands.eval_eq notShift, BinaryOp.isBoolean_of_hides hides, if_neg Bool.false_ne_true,
      integerResult_hidden k notShift hides]
    exact if_pos result
  · cases untypedFirst <;> exact untyped

/-! ## Every operator -/

/-- **A result that is in range does not say that the operand without a kind is, but for a few
operators.**  Only the result is checked: it is the exact one, of the kind of the operand that has one,
and in the range of that kind.  It says where the other operand lies for the exclusive or in every kind
and, in a kind without negative integers, for the or and for the bits of that operand that a mask
leaves. -/
theorem eval_mixed (notShift : op.isShift = false) (k : IntKind) (untypedFirst : Bool) :
    (∀ (scope : Scope) (iota : Nat) (left right : Expr) (a b : Int),
      scope.Mixed iota k untypedFirst left right a b →
      (∀ v, scope.eval iota (.binary op left right) = .ok v ↔
        v.kind = some k ∧ exactResult? op a b = some v.value ∧ k.contains v.value = true ∧
        (op = .remainder → isWide (a.tdiv b) = true)) ∧
      ∀ problem, scope.eval iota (.binary op left right) = .error problem →
        (op.isBoolean = true ∧
          problem = .unsupported (.booleanExpression (.binary op left right))) ∨
        ∃ cause, problem = .overflow cause) ∧
    (op.showsRange k untypedFirst = true ↔
      ∀ (scope : Scope) (iota : Nat) (left right : Expr) (a b : Int) (v : Value), scope.InKind →
        scope.Mixed iota k untypedFirst left right a b →
        scope.eval iota (.binary op left right) = .ok v →
        k.contains (if untypedFirst then a else b) = true) := by
  refine ⟨fun scope iota left right a b h => ⟨fun v => h.eval_eq_ok_iff notShift,
    fun problem => h.problem_of_eval notShift⟩, ?_, ?_⟩
  · intro shows scope iota left right a b v hs h
    exact h.contains_of_eval shows hs
  · intro always
    by_contra hides
    obtain ⟨scope, left, right, a, b, v, hs, h, result, outside⟩ :=
      exists_hidden k notShift (Bool.not_eq_true _ ▸ hides)
    rw [always scope 0 left right a b v hs h result] at outside
    cases outside

/-- `uint8(15)`. -/
def lowBits : Expr := .call (.name ⟨"uint8", ⟨1, 1⟩⟩) [.integer "15"]

theorem mixed_lowBits : bare.Mixed 0 .uint8 false lowBits (.integer "0x1ff") 15 511 := by
  constructor <;> cbv

theorem eval_mixed_lowBits :
    BinaryOp.or.isShift = false ∧ bare.Mixed 0 .uint8 false lowBits (.integer "0x1ff") 15 511 ∧
    ∀ v, bare.eval 0 (.binary .or lowBits (.integer "0x1ff")) ≠ .ok v := by
  refine ⟨rfl, mixed_lowBits, fun v result => ?_⟩
  have contained := (@eval_mixed .or rfl .uint8 false).2.1 rfl bare 0 _ _ 15 511 v nofun mixed_lowBits
    result
  cases contained

/-- `uint8(15) & 0x1ff` has a value, though a value of the kind cannot be 511. -/
theorem eval_hides_operand_out_of_range :
    bare.Mixed 0 .uint8 false lowBits (.integer "0x1ff") 15 511 ∧
    IntKind.uint8.contains 511 = false ∧
    bare.eval 0 (.binary .and lowBits (.integer "0x1ff")) = .ok ⟨15, some .uint8⟩ :=
  ⟨mixed_lowBits, by decide, by cbv⟩

end Scope

end EnumCodec
