import EnumCodec.Proofs.ExactValue
import EnumCodec.Proofs.LiteralGrammar

/-!
# Results that fit

Evaluation computes with integers of 128 bits.  Where the exact value of every part of an expression is
in range, it has a result: the exact one, but for two operations that refuse a result that fits.

* `Expr.parts` — the expressions that the value of an expression is computed from, in the order of
  evaluation.
* `Scope.Fits` — every part has an exact value that is in range.
* `refusal?` — the two operations: minus one shifted by 127 places, and the remainder of the least
  integer by minus one.
* `unaryValue_of_fits`, `binaryValue_of_fits` — what an operator gives whose result fits.
* `Scope.Gives` — what becomes of an expression, from what becomes of its parts.
* `Scope.eval_of_fits` — an expression all of whose parts fit has its exact value, but for refusals.
-/

set_option autoImplicit false

namespace EnumCodec

/-! ## Parts -/

namespace Expr

mutual

/-- The expressions that the value of an expression is computed from, the expression itself being the
last of them.  What is called in a conversion has no value. -/
def parts : Expr → List Expr
  | paren inner => inner.parts ++ [paren inner]
  | unary op operand => operand.parts ++ [unary op operand]
  | binary op left right => left.parts ++ right.parts ++ [binary op left right]
  | call callee args => partsAll args ++ [call callee args]
  | e => [e]

/-- The expressions that the values of a list are computed from. -/
def partsAll : List Expr → List Expr
  | [] => []
  | e :: es => e.parts ++ partsAll es

end

theorem self_mem_parts (e : Expr) : e ∈ e.parts := by
  cases e <;> simp [parts]

end Expr

/-! ## Values in range -/

/-- The value is in the range of untyped values, and in that of its kind if it has one. -/
structure Value.Fits (v : Value) : Prop where
  wide : isWide v.value = true
  inKind : v.InKind

theorem Value.Fits.untyped {n : Int} (h : isWide n = true) : (⟨n, none⟩ : Value).Fits := ⟨h, nofun⟩

/-- The literals of the expression are those of the grammar, and every part of it has an exact value
that fits. -/
structure Scope.Fits (scope : Scope) (iota : Nat) (e : Expr) : Prop where
  written : ∀ text, .integer text ∈ e.parts →
    ∃ base digits, IntegerLiteral.IsWritten text.toList base digits
  values : ∀ part ∈ e.parts, ∃ v, scope.exactValue? iota part = some v ∧ v.Fits

/-- Why a result that fits is refused: a shift by 127 places is refused whatever is shifted, and a
remainder is refused where the quotient is out of range. -/
def refusal? (op : BinaryOp) (a b : Int) : Option Overflow :=
  if op = .shiftLeft ∧ a = -1 ∧ b = 127 then some .shiftTooLarge
  else if op = .remainder ∧ a = -2 ^ 127 ∧ b = -1 then some .arithmetic
  else none

/-- What is computed, unless it is refused. -/
def unlessRefused {α : Type} (a : α) : Option Overflow → Except EvalProblem α
  | none => .ok a
  | some cause => .error (.overflow cause)

namespace Scope

/-- Why the last operation of an expression is refused. -/
def refusal? (scope : Scope) (iota : Nat) : Expr → Option Overflow
  | .binary op left right =>
    match scope.exactValue? iota left, scope.exactValue? iota right with
    | some l, some r => EnumCodec.refusal? op l.value r.value
    | _, _ => none
  | _ => none

end Scope

/-! ## Operators -/

section

variable {v u l r : Value} {whole : Expr}

theorem inRange_of_isWide {n : Int} {cause : Overflow} (h : isWide n = true) :
    inRange (wide? n) cause = .ok n := by
  rw [wide?, if_pos h, inRange]

theorem withKind_of_inKind (h : u.InKind) : withKind u.value u.kind = .ok u := by
  obtain ⟨n, kind⟩ := u
  cases kind with
  | none => rfl
  | some k => exact if_pos (h k rfl)

theorem unaryValue_of_fits {op : UnaryOp} (hv : v.InKind) (exact_value : exactUnary? op v = some u)
    (hu : u.Fits) : unaryValue op v whole = .ok u := by
  cases op with
  | plus =>
    cases exact_value
    exact withKind_of_inKind hu.inKind
  | negate =>
    cases exact_value
    rw [unaryValue, inRange_of_isWide hu.wide]
    exact withKind_of_inKind hu.inKind
  | complement =>
    rw [complementOf_eq hv] at exact_value
    cases exact_value
    exact withKind_of_inKind hu.inKind
  | not | dereference | addressOf | receive => cases exact_value

/-- Only minus one can be shifted by 127 places or more, and by no more than 127. -/
theorem eq_of_isWide_shift {a : Int} {n : Nat} (far : 127 ≤ n) (nonzero : a ≠ 0)
    (h : isWide (a * 2 ^ n) = true) : a = -1 ∧ n = 127 := by
  obtain ⟨lo, hi⟩ := isWide_iff.1 h
  have power : (2 : Int) ^ 127 ≤ 2 ^ n := by exact_mod_cast Nat.pow_le_pow_right (by decide) far
  have minus_one : a = -1 := by
    rcases Int.lt_or_gt_of_ne nonzero with below | above
    · by_contra other
      have : a * 2 ^ n ≤ -2 * 2 ^ n := Int.mul_le_mul_of_nonneg_right (by omega) (by omega)
      omega
    · have : 1 * 2 ^ n ≤ a * 2 ^ n := Int.mul_le_mul_of_nonneg_right above (by omega)
      omega
  refine ⟨minus_one, ?_⟩
  by_contra other
  have : (2 : Int) ^ 128 ≤ 2 ^ n := by
    exact_mod_cast Nat.pow_le_pow_right (by decide) (by omega : 128 ≤ n)
  rw [minus_one] at lo
  omega

theorem exists_word {a : Int} (h : isWide a = true) : ∃ w : Word, w.toInt = a :=
  ⟨BitVec.ofInt 128 a, by rw [BitVec.toInt_ofInt]; exact bmod_of_isWide h⟩

/-- The only quotient out of range is that of the least integer by minus one. -/
theorem isWide_tdiv {a b : Int} (ha : isWide a = true) (hb : isWide b = true) :
    isWide (a.tdiv b) = true ↔ ¬ (a = -2 ^ 127 ∧ b = -1) := by
  obtain ⟨a, rfl⟩ := exists_word ha
  obtain ⟨b, rfl⟩ := exists_word hb
  have least : (BitVec.intMin 128).toInt = -2 ^ 127 := by decide +kernel
  have minusOne : (-1 : Word).toInt = -1 := by decide +kernel
  rw [isWide_tdiv_iff, ← BitVec.toInt_inj, ← BitVec.toInt_inj, least, minusOne]

/-- A shift to the left checks the number of places before it looks at the result. -/
theorem shiftLeft_of_fits (exact_value : exactBinary? .shiftLeft l r = some u) (hu : u.Fits) :
    binaryValue .shiftLeft l r whole = unlessRefused u (refusal? .shiftLeft l.value r.value) := by
  have count : 0 ≤ r.value := by
    by_contra negative
    rw [exactBinary?, if_neg negative] at exact_value
    cases exact_value
  rw [exactBinary?, if_pos count] at exact_value
  cases exact_value
  rw [binaryValue, shiftValue_left count, Bits.power_eq]
  by_cases zero : l.value = 0
  · have accepted : refusal? .shiftLeft l.value r.value = none := by simp [refusal?, zero]
    rw [if_pos zero, accepted]
    have same := withKind_of_inKind hu.inKind
    simp only [zero, Int.zero_mul] at same ⊢
    exact same
  rw [if_neg zero]
  by_cases far : 127 ≤ r.value
  · have edge := eq_of_isWide_shift (n := r.value.toNat) (by omega) zero hu.wide
    have refused : refusal? .shiftLeft l.value r.value = some .shiftTooLarge :=
      if_pos ⟨rfl, edge.1, by omega⟩
    rw [if_pos far, refused]
    rfl
  · have accepted : refusal? .shiftLeft l.value r.value = none := by
      simp only [refusal?, reduceCtorEq, false_and, if_false, ite_eq_right_iff]
      omega
    rw [if_neg far, inRange_of_isWide hu.wide, accepted]
    exact withKind_of_inKind hu.inKind

theorem shiftRight_of_fits (hl : l.Fits) (exact_value : exactBinary? .shiftRight l r = some u)
    (hu : u.Fits) : binaryValue .shiftRight l r whole = .ok u := by
  have count : 0 ≤ r.value := by
    by_contra negative
    rw [exactBinary?, if_neg negative] at exact_value
    cases exact_value
  rw [exactBinary?, if_pos count] at exact_value
  cases exact_value
  rw [binaryValue, shiftValue, if_neg (by omega), if_neg (by decide), ediv_power_of_isWide hl.wide]
  exact withKind_of_inKind hu.inKind

/-- A result in range is computed, unless it is a remainder and the quotient is out of range. -/
theorem integerResult_of_exact {op : BinaryOp} {a b n : Int}
    (exact_result : exactResult? op a b = some n) (hn : isWide n = true) :
    integerResult op a b = if op = .remainder ∧ isWide (a.tdiv b) = false
      then .error (.overflow .arithmetic) else .ok n := by
  cases op with
  | add | sub | mul =>
    cases exact_result
    exact inRange_of_isWide hn
  | and =>
    cases exact_result
    rw [integerResult, Bits.and_eq_land]
    rfl
  | or =>
    cases exact_result
    rw [integerResult, Bits.or_eq_lor]
    rfl
  | xor =>
    cases exact_result
    rw [integerResult, Bits.xor_eq_xor]
    rfl
  | andNot =>
    cases exact_result
    rw [integerResult, Bits.andNot_eq_ldiff]
    rfl
  | quotient =>
    rw [exactResult?] at exact_result
    split at exact_result <;> cases exact_result
    rename_i nonzero
    rw [integerResult, if_neg nonzero]
    exact inRange_of_isWide hn
  | remainder =>
    rw [exactResult?] at exact_result
    split at exact_result <;> cases exact_result
    rename_i nonzero
    rw [integerResult, if_neg nonzero, remainder?, quotient?, wide?]
    cases isWide (a.tdiv b) <;> rfl
  | _ => cases exact_result

theorem integerResult_of_isWide {op : BinaryOp} {a b n : Int} (ha : isWide a = true)
    (hb : isWide b = true) (exact_result : exactResult? op a b = some n) (hn : isWide n = true) :
    integerResult op a b = unlessRefused n (refusal? op a b) := by
  have shift : op ≠ .shiftLeft := by
    rintro rfl
    cases exact_result
  have quotient : isWide (a.tdiv b) = false ↔ a = -2 ^ 127 ∧ b = -1 := by
    rw [← Bool.not_eq_true, isWide_tdiv ha hb, not_not]
  simp only [integerResult_of_exact exact_result hn, quotient, refusal?, shift, false_and, if_false]
  split <;> rfl

/-- An operator other than a shift, on operands whose kinds fit together. -/
theorem sameKind_of_fits {op : BinaryOp} (hl : l.Fits) (hr : r.Fits)
    (exact_value : (match commonKind l.kind r.kind, exactResult? op l.value r.value with
      | .ok kind, some n => some (⟨n, kind⟩ : Value)
      | _, _ => none) = some u) (hu : u.Fits) :
    (match commonKind l.kind r.kind with
      | .error (a, b) => .error (.unsupported (.mismatchedTypes a b whole))
      | .ok kind =>
        match integerResult op l.value r.value with
        | .error e => .error e
        | .ok n => withKind n kind) = unlessRefused u (refusal? op l.value r.value) := by
  cases common : commonKind l.kind r.kind with
  | error kinds =>
    rw [common] at exact_value
    cases exact_value
  | ok kind =>
    cases result : exactResult? op l.value r.value with
    | none =>
      rw [common, result] at exact_value
      cases exact_value
    | some n =>
      rw [common, result] at exact_value
      cases exact_value
      dsimp only
      rw [integerResult_of_isWide hl.wide hr.wide result hu.wide]
      cases refusal? op l.value r.value with
      | none => exact withKind_of_inKind hu.inKind
      | some cause => rfl

/-- **An operator with two operands gives its result if that fits**, apart from the two that are
refused. -/
theorem binaryValue_of_fits {op : BinaryOp} (hl : l.Fits) (hr : r.Fits)
    (exact_value : exactBinary? op l r = some u) (hu : u.Fits) :
    binaryValue op l r whole = unlessRefused u (refusal? op l.value r.value) := by
  cases op with
  | shiftLeft => exact shiftLeft_of_fits exact_value hu
  | shiftRight => exact shiftRight_of_fits hl exact_value hu
  | _ => exact sameKind_of_fits hl hr exact_value hu

theorem isBoolean_of_exactResult? {op : BinaryOp} {a b n : Int}
    (exact_result : exactResult? op a b = some n) : op.isBoolean = false := by
  cases op with
  | andAnd | orOr | equal | notEqual | less | lessEqual | greater | greaterEqual => cases exact_result
  | _ => rfl

theorem isBoolean_of_exactBinary? {op : BinaryOp} (exact_value : exactBinary? op l r = some u) :
    op.isBoolean = false := by
  unfold exactBinary? at exact_value
  split at exact_value
  · rfl
  · rfl
  · split at exact_value
    · rename_i exact_result
      exact isBoolean_of_exactResult? exact_result
    · cases exact_value

theorem literalValue_of_fits {text : String} {base : Nat} {digits : List Nat}
    (written : IntegerLiteral.IsWritten text.toList base digits)
    (h : (⟨literalNumber text, none⟩ : Value).Fits) :
    literalValue text = .ok ⟨literalNumber text, none⟩ := by
  have below : literalNumber text < 2 ^ 128 := by
    have := (isWide_iff.1 h.wide).2
    dsimp only at this
    omega
  have wide : wide? (literalNumber text) = some (literalNumber text : Int) := if_pos h.wide
  rw [literalValue, written.value?_eq, ← written.literalNumber_eq, if_pos below, Option.bind_some, wide]

end

/-! ## Every expression -/

namespace Scope

variable {scope : Scope} {iota : Nat}

theorem Fits.of_subset {e part : Expr} (h : scope.Fits iota e) (subset : part.parts ⊆ e.parts) :
    scope.Fits iota part :=
  ⟨fun text mem => h.written text (subset mem), fun p mem => h.values p (subset mem)⟩

theorem Fits.exists_value {e : Expr} (h : scope.Fits iota e) :
    ∃ v, scope.exactValue? iota e = some v ∧ v.Fits :=
  h.values e e.self_mem_parts

theorem Fits.fits_of_exactValue? {e : Expr} {v : Value} (h : scope.Fits iota e)
    (value : scope.exactValue? iota e = some v) : v.Fits := by
  obtain ⟨u, eq, fits⟩ := h.exists_value
  rw [value] at eq
  cases eq
  exact fits

/-- A call that has a value converts its only argument to an integer kind. -/
theorem conversion_of_exactValue? {callee : Expr} {args : List Expr} {v : Value}
    (h : scope.exactValue? iota (.call callee args) = some v) :
    ∃ arg kind u, args = [arg] ∧ scope.conversionKind callee args = .ok kind ∧
      scope.exactValue? iota arg = some u ∧ v = ⟨u.value, some kind⟩ := by
  rw [exactValue?] at h
  split at h
  · rename_i kind u called argument
    cases h
    unfold exactArgument? at argument
    split at argument
    · rename_i arg
      obtain ⟨target, name, meaning⟩ := Option.map_eq_some_iff.1 called
      refine ⟨arg, kind, u, rfl, ?_, argument, rfl⟩
      simp only [conversionKind, name, meaning]
    · cases argument
  · cases h

theorem nameValue_of_exactValue? {ident : Ident} {v : Value}
    (h : scope.exactValue? iota (.name ident) = some v) :
    scope.nameValue iota ident.name = .ok v := by
  rw [exactValue?] at h
  cases constant : scope.constant? ident.name with
  | some u =>
    rw [constant] at h
    cases h
    unfold nameValue
    rw [constant]
  | none =>
    rw [constant] at h
    rw [nameValue_of_none constant]
    dsimp only at h
    split at h
    · rename_i eq
      cases h
      rw [if_pos eq]
    · cases h

/-- Evaluation gives the value, unless a part of the expression is refused; then the first of these in
the order of evaluation is what is wrong. -/
def Gives (scope : Scope) (iota : Nat) (e : Expr) (v : Value) : Prop :=
  scope.eval iota e = unlessRefused v (e.parts.findSome? (scope.refusal? iota))

namespace Gives

variable {v u l r : Value} {operand left right : Expr}

theorem paren (h : scope.Gives iota operand v) : scope.Gives iota (.paren operand) v := by
  rw [Gives, eval, h, Expr.parts, List.findSome?_append]
  simp [refusal?]

theorem unary {op : UnaryOp} (h : scope.Gives iota operand u)
    (own : unaryValue op u (.unary op operand) = .ok v) : scope.Gives iota (.unary op operand) v := by
  rw [Gives, eval, h, Expr.parts, List.findSome?_append]
  cases operand.parts.findSome? (scope.refusal? iota) with
  | none => exact own
  | some cause => rfl

theorem binary {op : BinaryOp} (hl : scope.Gives iota left l) (hr : scope.Gives iota right r)
    (left_value : scope.exactValue? iota left = some l)
    (right_value : scope.exactValue? iota right = some r) (integer : op.isBoolean = false)
    (own : binaryValue op l r (.binary op left right) =
      unlessRefused v (EnumCodec.refusal? op l.value r.value)) :
    scope.Gives iota (.binary op left right) v := by
  have last : [Expr.binary op left right].findSome? (scope.refusal? iota) =
      EnumCodec.refusal? op l.value r.value := by
    simp [refusal?, left_value, right_value]
  rw [Gives, eval, integer, hl, hr, Expr.parts, List.findSome?_append, List.findSome?_append, last]
  cases left.parts.findSome? (scope.refusal? iota) with
  | some cause => rfl
  | none =>
    cases right.parts.findSome? (scope.refusal? iota) with
    | some cause => rfl
    | none => exact own

theorem call {callee arg : Expr} {kind : IntKind} (h : scope.Gives iota arg u)
    (conversion : scope.conversionKind callee [arg] = .ok kind)
    (own : convert u.value kind = .ok v) : scope.Gives iota (.call callee [arg]) v := by
  rw [Gives, eval, conversion, evalFirst, h, Expr.parts, Expr.partsAll, Expr.partsAll,
    List.append_nil, List.findSome?_append]
  cases arg.parts.findSome? (scope.refusal? iota) with
  | none => exact own
  | some cause => rfl

end Gives

/-- **An expression all of whose parts fit has its exact value**, unless one of them is refused; then
the first of these in the order of evaluation is what is wrong with it. -/
theorem eval_of_fits {e : Expr} (h : scope.Fits iota e) :
    ∃ v, scope.exactValue? iota e = some v ∧ v.Fits ∧
      scope.eval iota e = unlessRefused v (e.parts.findSome? (scope.refusal? iota)) := by
  obtain ⟨v, exact_value, fits⟩ := h.exists_value
  refine ⟨v, exact_value, fits, ?_⟩
  change scope.Gives iota e v
  induction e using Expr.induct generalizing v with
  | float | imaginary | string | opaqueForm => cases exact_value
  | selector => cases exact_value
  | integer text =>
    obtain ⟨base, digits, written⟩ := h.written text (by simp [Expr.parts])
    rw [exactValue?] at exact_value
    cases exact_value
    exact literalValue_of_fits written fits
  | rune code =>
    rw [exactValue?] at exact_value
    cases exact_value
    rfl
  | name ident => exact nameValue_of_exactValue? exact_value
  | paren inner ih => exact (ih (h.of_subset (by simp [Expr.parts])) v exact_value fits).paren
  | unary op operand ih =>
    have operand_fits : scope.Fits iota operand := h.of_subset (by simp [Expr.parts])
    obtain ⟨u, operand_value, u_fits⟩ := operand_fits.exists_value
    rw [exactValue?, operand_value, Option.bind_some] at exact_value
    exact (ih operand_fits u operand_value u_fits).unary
      (unaryValue_of_fits u_fits.inKind exact_value fits)
  | binary op left right ihl ihr =>
    have left_fits : scope.Fits iota left := h.of_subset (by simp [Expr.parts])
    have right_fits : scope.Fits iota right := h.of_subset (by simp [Expr.parts])
    obtain ⟨l, left_value, l_fits⟩ := left_fits.exists_value
    obtain ⟨r, right_value, r_fits⟩ := right_fits.exists_value
    rw [exactValue?, left_value, Option.bind_some, right_value, Option.bind_some] at exact_value
    exact (ihl left_fits l left_value l_fits).binary (ihr right_fits r right_value r_fits)
      left_value right_value (isBoolean_of_exactBinary? exact_value)
      (binaryValue_of_fits l_fits r_fits exact_value fits)
  | call callee args _ ih =>
    obtain ⟨arg, kind, u, rfl, conversion, arg_value, rfl⟩ := conversion_of_exactValue? exact_value
    have arg_fits : scope.Fits iota arg := h.of_subset (by simp [Expr.parts, Expr.partsAll])
    have converted : convert u.value kind = .ok ⟨u.value, some kind⟩ := if_pos (fits.inKind kind rfl)
    exact (ih arg List.mem_cons_self arg_fits u arg_value
      (arg_fits.fits_of_exactValue? arg_value)).call conversion converted

/-! ## The edge of the range -/

section

variable {op : BinaryOp} {v : Value} {left right operand : Expr}

theorem Fits.literal {text : String} {base : Nat} {digits : List Nat}
    (written : IntegerLiteral.IsWritten text.toList base digits)
    (small : literalNumber text < 2 ^ 127) : scope.Fits iota (.integer text) := by
  refine ⟨fun other mem => ?_, fun part mem => ?_⟩
  · obtain rfl : other = text := by simpa [Expr.parts] using mem
    exact ⟨base, digits, written⟩
  · obtain rfl : part = .integer text := by simpa [Expr.parts] using mem
    exact ⟨⟨literalNumber text, none⟩, by rw [exactValue?],
      .untyped (isWide_iff.2 ⟨by omega, by omega⟩)⟩

theorem Fits.unary {op : UnaryOp} (h : scope.Fits iota operand)
    (value : scope.exactValue? iota (.unary op operand) = some v) (fits : v.Fits) :
    scope.Fits iota (.unary op operand) := by
  refine ⟨fun text mem => ?_, fun part mem => ?_⟩ <;>
    simp only [Expr.parts, List.mem_append, List.mem_singleton, reduceCtorEq, or_false] at mem
  · exact h.written text mem
  · obtain mem | rfl := mem
    · exact h.values part mem
    · exact ⟨v, value, fits⟩

theorem Fits.binary (hl : scope.Fits iota left) (hr : scope.Fits iota right)
    (value : scope.exactValue? iota (.binary op left right) = some v) (fits : v.Fits) :
    scope.Fits iota (.binary op left right) := by
  refine ⟨fun text mem => ?_, fun part mem => ?_⟩ <;>
    simp only [Expr.parts, List.mem_append, List.mem_singleton, reduceCtorEq, or_false] at mem
  · exact mem.elim (hl.written text) (hr.written text)
  · obtain (mem | mem) | rfl := mem
    · exact hl.values part mem
    · exact hr.values part mem
    · exact ⟨v, value, fits⟩

end

/-- A scope without constants and declared types. -/
def bare : Scope := ⟨fun _ => none, TypeMeaning.predeclared⟩

/-- `-1`. -/
def minusOne : Expr := .unary .negate (.integer "1")

/-- `-1 << 126 * 2`. -/
def leastInteger : Expr := .binary .mul (.binary .shiftLeft minusOne (.integer "126")) (.integer "2")

theorem fits_minusOne : bare.Fits 0 minusOne := by
  have one : bare.Fits 0 (.integer "1") :=
    @Fits.literal bare 0 "1" 10 [1] (.of_digitChars (by decide) (by decide) rfl)
      (by decide)
  exact one.unary rfl (.untyped (by decide))

theorem fits_leastInteger : bare.Fits 0 leastInteger := by
  have far : bare.Fits 0 (.integer "126") :=
    @Fits.literal bare 0 "126" 10 [1, 2, 6]
      (.of_digitChars (by decide) (by decide) rfl) (by decide)
  have two : bare.Fits 0 (.integer "2") :=
    @Fits.literal bare 0 "2" 10 [2] (.of_digitChars (by decide) (by decide) rfl)
      (by decide)
  exact (fits_minusOne.binary far rfl (.untyped (by decide))).binary two rfl (.untyped (by decide))

theorem eval_of_fits_leastInteger : bare.Fits 0 leastInteger ∧
    bare.eval 0 leastInteger = .ok ⟨-2 ^ 127, none⟩ := by
  obtain ⟨v, value, -, outcome⟩ := eval_of_fits fits_leastInteger
  have least : bare.exactValue? 0 leastInteger = some ⟨-2 ^ 127, none⟩ := rfl
  rw [value] at least
  cases least
  exact ⟨fits_leastInteger, outcome⟩

/-- Two expressions with results in range that are refused: `-1 << 127`, and `-1 << 126 * 2 % -1`. -/
theorem eval_refuses_results_that_fit :
    (bare.Fits 0 (.binary .shiftLeft minusOne (.integer "127")) ∧
      bare.exactValue? 0 (.binary .shiftLeft minusOne (.integer "127")) = some ⟨-2 ^ 127, none⟩ ∧
      bare.eval 0 (.binary .shiftLeft minusOne (.integer "127")) = .error (.overflow .shiftTooLarge)) ∧
    bare.Fits 0 (.binary .remainder leastInteger minusOne) ∧
      bare.exactValue? 0 (.binary .remainder leastInteger minusOne) = some ⟨0, none⟩ ∧
      bare.eval 0 (.binary .remainder leastInteger minusOne) = .error (.overflow .arithmetic) := by
  have far : bare.Fits 0 (.integer "127") :=
    @Fits.literal bare 0 "127" 10 [1, 2, 7]
      (.of_digitChars (by decide) (by decide) rfl) (by decide)
  exact ⟨⟨fits_minusOne.binary far rfl (.untyped (by decide)), rfl, rfl⟩,
    fits_leastInteger.binary fits_minusOne rfl (.untyped (by decide)), rfl, rfl⟩

end Scope

end EnumCodec
