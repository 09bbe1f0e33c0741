import EnumCodec.Proofs.LiteralNumber
import EnumCodec.Proofs.WordEvaluation
import Mathlib

/-!
# The exact value of an expression

`Scope.exactValue?` gives an expression its value among all integers: nothing overflows, shifts may be as
far as they like, and the bitwise operators see endless rows of bits.

* `withKind_eq_ok` — what is given a kind keeps its value and lies in the range of the kind.
* `unaryValue_exact`, `binaryValue_exact` — an operator that has a result gives the exact one.
* `eval_exact` — so does the evaluation of every expression, with words, and on the way there the
  machine loses nothing.
-/

set_option autoImplicit false

namespace EnumCodec

/-! ## Exact values -/

/-- The value of an operator with one operand. -/
def exactUnary? (op : UnaryOp) (v : Value) : Option Value :=
  match op with
  | .plus => some v
  | .negate => some ⟨-v.value, v.kind⟩
  | .complement =>
    match v.kind with
    | some k => some ⟨if k.isSigned then -v.value - 1 else 2 ^ k.bits - 1 - v.value, v.kind⟩
    | none => some ⟨-v.value - 1, none⟩
  | .not | .dereference | .addressOf | .receive => none

/-- The integer that an operator with two operands gives, other than a shift. -/
def exactResult? (op : BinaryOp) (a b : Int) : Option Int :=
  match op with
  | .add => some (a + b)
  | .sub => some (a - b)
  | .mul => some (a * b)
  | .quotient => if b = 0 then none else some (a.tdiv b)
  | .remainder => if b = 0 then none else some (a.tmod b)
  | .and => some (a.land b)
  | .or => some (a.lor b)
  | .xor => some (a.xor b)
  | .andNot => some (a.ldiff b)
  | _ => none

/-- The value of an operator with two operands. -/
def exactBinary? (op : BinaryOp) (l r : Value) : Option Value :=
  match op with
  | .shiftLeft => if 0 ≤ r.value then some ⟨l.value * 2 ^ r.value.toNat, l.kind⟩ else none
  | .shiftRight => if 0 ≤ r.value then some ⟨l.value.fdiv (2 ^ r.value.toNat), l.kind⟩ else none
  | _ =>
    match commonKind l.kind r.kind, exactResult? op l.value r.value with
    | .ok kind, some n => some ⟨n, kind⟩
    | _, _ => none

namespace Scope

mutual

/-- The value of an expression on a line of a group of constants. -/
def exactValue? (scope : Scope) (iota : Nat) : Expr → Option Value
  | .integer text => some ⟨literalNumber text, none⟩
  | .rune code => some ⟨code, none⟩
  | .name ident =>
    match scope.constant? ident.name with
    | some v => some v
    | none => if ident.name = "iota" then some ⟨iota, none⟩ else none
  | .paren inner => scope.exactValue? iota inner
  | .unary op operand => (scope.exactValue? iota operand).bind (exactUnary? op)
  | .binary op left right =>
    (scope.exactValue? iota left).bind fun l => (scope.exactValue? iota right).bind (exactBinary? op l)
  | .call callee args =>
    match (calledName? callee).map scope.typeMeaning, scope.exactArgument? iota args with
    | some (.integer kind), some v => some ⟨v.value, some kind⟩
    | _, _ => none
  | .float _ | .imaginary _ | .string _ | .selector .. | .opaqueForm _ => none

/-- The value of the only expression of a list. -/
def exactArgument? (scope : Scope) (iota : Nat) : List Expr → Option Value
  | [e] => scope.exactValue? iota e
  | _ => none

end

end Scope

/-! ## Operators -/

/-- A value with a kind lies in the range of the kind. -/
def Value.InKind (v : Value) : Prop := ∀ kind, v.kind = some kind → kind.contains v.value = true

theorem convert_eq_ok {n : Int} {k : IntKind} {v : Value} (h : convert n k = .ok v) :
    v = ⟨n, some k⟩ ∧ v.InKind := by
  unfold convert at h
  split at h
  · rename_i hk
    cases h
    refine ⟨rfl, fun kind hkind => ?_⟩
    cases hkind
    exact hk
  · cases h

theorem withKind_eq_ok {n : Int} {kind : Option IntKind} {v : Value}
    (h : withKind n kind = .ok v) : v = ⟨n, kind⟩ ∧ v.InKind := by
  cases kind with
  | none =>
    cases h
    exact ⟨rfl, nofun⟩
  | some k => exact convert_eq_ok h

theorem complementOf_eq {v : Value} (hv : v.InKind) :
    exactUnary? .complement v = some ⟨complementOf v, v.kind⟩ := by
  obtain ⟨n, kind⟩ := v
  cases kind with
  | none => simp [exactUnary?, complementOf, Bits.complement_eq]
  | some k =>
    have hk := hv k rfl
    unfold exactUnary? complementOf
    dsimp only
    split
    · rw [Bits.complement_eq]
    · rename_i hs
      rw [IntKind.contains_iff, IntKind.min, IntKind.max, if_neg hs, if_neg hs, Bits.power_eq] at hk
      rw [IntKind.max, if_neg hs, Bits.power_eq, Bits.complement_within hk.1 (by omega)]

theorem unaryValue_exact {op : UnaryOp} {v u : Value} {whole : Expr} (hv : v.InKind)
    (h : unaryValue op v whole = .ok u) : exactUnary? op v = some u ∧ u.InKind := by
  cases op with
  | plus =>
    obtain ⟨rfl, hu⟩ := withKind_eq_ok h
    exact ⟨rfl, hu⟩
  | negate =>
    simp only [unaryValue] at h
    split at h
    · cases h
    · rename_i n hn
      obtain ⟨-, rfl⟩ := inRange_wide?_eq_ok hn
      obtain ⟨rfl, hu⟩ := withKind_eq_ok h
      exact ⟨rfl, hu⟩
  | complement =>
    obtain ⟨rfl, hu⟩ := withKind_eq_ok h
    exact ⟨complementOf_eq hv, hu⟩
  | not | dereference | addressOf | receive => cases h

/-- A shift to the right by more places than a word has leaves nothing but the sign. -/
theorem ediv_power_of_isWide {a : Int} (h : isWide a = true) (n : Nat) :
    a / Bits.power (Nat.min n 127) = a.fdiv (2 ^ n) := by
  obtain ⟨hlo, hhi⟩ := isWide_iff.1 h
  rw [Int.fdiv_eq_ediv_of_nonneg _ (Int.pow_nonneg (by decide)), Bits.power_eq]
  rcases Nat.le_total n 127 with hn | hn
  · have hmin : n.min 127 = n := Nat.min_eq_left hn
    rw [hmin]
  · have hmin : n.min 127 = 127 := Nat.min_eq_right hn
    have hpow : (2 : Int) ^ 127 ≤ 2 ^ n := by exact_mod_cast Nat.pow_le_pow_right (by decide) hn
    rw [hmin]
    rcases Int.lt_or_le a 0 with ha | ha
    · rw [Int.ediv_eq_neg_one_of_neg_of_le ha (by omega),
        Int.ediv_eq_neg_one_of_neg_of_le ha (by omega)]
    · rw [Int.ediv_eq_zero_of_lt ha hhi, Int.ediv_eq_zero_of_lt ha (by omega)]

theorem shiftRight_exact {l r u : Value} (hl : isWide l.value = true)
    (h : shiftValue false l r = .ok u) : exactBinary? .shiftRight l r = some u ∧ u.InKind := by
  unfold shiftValue at h
  split at h
  · cases h
  · rename_i hr
    rw [if_neg (by decide), ediv_power_of_isWide hl] at h
    obtain ⟨rfl, hu⟩ := withKind_eq_ok h
    exact ⟨if_pos (Int.not_lt.1 hr), hu⟩

theorem shiftLeft_exact {l r u : Value} (h : shiftValue true l r = .ok u) :
    exactBinary? .shiftLeft l r = some u ∧ u.InKind := by
  simp only [shiftValue, if_true] at h
  split at h
  · cases h
  · rename_i hr
    have hexact : exactBinary? .shiftLeft l r = some ⟨l.value * 2 ^ r.value.toNat, l.kind⟩ :=
      if_pos (Int.not_lt.1 hr)
    split at h
    · rename_i hzero
      obtain ⟨rfl, hu⟩ := withKind_eq_ok h
      rw [hexact, hzero, Int.zero_mul]
      exact ⟨rfl, hu⟩
    · split at h
      · cases h
      · split at h
        · cases h
        · rename_i n hn
          obtain ⟨-, rfl⟩ := inRange_wide?_eq_ok hn
          obtain ⟨rfl, hu⟩ := withKind_eq_ok h
          rw [hexact, Bits.power_eq]
          exact ⟨rfl, by rwa [Bits.power_eq] at hu⟩

theorem quotient?_eq_some {a b n : Int} (h : quotient? a b = some n) : a.tdiv b = n := by
  unfold quotient? wide? at h
  split at h <;> cases h
  rfl

theorem remainder?_eq_some {a b n : Int} (h : remainder? a b = some n) : a.tmod b = n := by
  obtain ⟨_, -, hn⟩ := Option.map_eq_some_iff.1 h
  exact hn

theorem integerResult_exact {op : BinaryOp} {a b n : Int} (h : integerResult op a b = .ok n) :
    exactResult? op a b = some n := by
  have hdivided {x : Option Int} {m : Int} (hx : ∀ k, x = some k → m = k)
      (hn : (if b = 0 then .error (.overflow .divisionByZero) else inRange x .arithmetic) =
        Except.ok n) : (if b = 0 then none else some m) = some n := by
    split at hn
    · cases hn
    · rename_i hb
      rw [if_neg hb]
      cases x with
      | none => cases hn
      | some k =>
        cases hn
        rw [hx n rfl]
  cases op with
  | add | sub | mul =>
    obtain ⟨-, rfl⟩ := inRange_wide?_eq_ok h
    rfl
  | quotient => exact hdivided (fun k hk => quotient?_eq_some hk) h
  | remainder => exact hdivided (fun k hk => remainder?_eq_some hk) h
  | and =>
    cases h
    rw [exactResult?, Bits.and_eq_land]
  | or =>
    cases h
    rw [exactResult?, Bits.or_eq_lor]
  | xor =>
    cases h
    rw [exactResult?, Bits.xor_eq_xor]
  | andNot =>
    cases h
    rw [exactResult?, Bits.andNot_eq_ldiff]
  | _ => cases h

/-- An operator other than a shift, on operands whose kinds have to fit together. -/
theorem sameKind_exact {op : BinaryOp} {l r u : Value} {whole : Expr}
    (h : (match commonKind l.kind r.kind with
      | .error (a, b) => .error (.unsupported (.mismatchedTypes a b whole))
      | .ok kind =>
        match integerResult op l.value r.value with
        | .error e => .error e
        | .ok n => withKind n kind) = Except.ok u) :
    (match commonKind l.kind r.kind, exactResult? op l.value r.value with
      | .ok kind, some n => some ⟨n, kind⟩
      | _, _ => none) = some u ∧ u.InKind := by
  cases hkind : commonKind l.kind r.kind with
  | error kinds =>
    rw [hkind] at h
    cases h
  | ok kind =>
    cases hn : integerResult op l.value r.value with
    | error e =>
      rw [hkind, hn] at h
      cases h
    | ok n =>
      rw [hkind, hn] at h
      obtain ⟨rfl, hu⟩ := withKind_eq_ok h
      rw [integerResult_exact hn]
      exact ⟨rfl, hu⟩

theorem binaryValue_exact {op : BinaryOp} {l r u : Value} {whole : Expr}
    (hl : isWide l.value = true) (h : binaryValue op l r whole = .ok u) :
    exactBinary? op l r = some u ∧ u.InKind := by
  cases op with
  | shiftLeft => exact shiftLeft_exact h
  | shiftRight => exact shiftRight_exact hl h
  | _ => exact sameKind_exact h

/-! ## Every expression -/

theorem literalValue_exact {text : String} {v : Value} (h : literalValue text = .ok v) :
    v = ⟨literalNumber text, none⟩ := by
  unfold literalValue at h
  split at h
  · rename_i n hn
    obtain ⟨m, hm, hwide⟩ := Option.bind_eq_some_iff.1 hn
    cases h
    rw [literalNumber_of_value? hm]
    unfold wide? at hwide
    split at hwide <;> cases hwide
    rfl
  · cases h

theorem Scope.conversionKind_eq_ok {scope : Scope} {callee : Expr} {args : List Expr}
    {kind : IntKind} (h : scope.conversionKind callee args = .ok kind) :
    ∃ arg, args = [arg] ∧ (calledName? callee).map scope.typeMeaning = some (.integer kind) := by
  unfold Scope.conversionKind at h
  split at h
  · rename_i target arg hname
    split at h
    · rename_i k hk
      cases h
      exact ⟨arg, rfl, by rw [hname, Option.map_some, hk]⟩
    · cases h
    · cases h
  · cases h

namespace WordScope

variable {scope : WordScope} {iota : UInt32}

/-- A constant that has a kind lies in the range of the kind. -/
def InKind (scope : WordScope) : Prop :=
  ∀ name v, scope.constant? name = some v → v.toValue.InKind

/-- What has a value can be held by a word. -/
theorem isWide_of_eval {e : Expr} {v : Value} (h : scope.toScope.eval iota.toNat e = .ok v) :
    isWide v.value = true := by
  have hout := (run_computes scope iota e).outcome
  rw [h] at hout
  cases hrun : (scope.run iota e).outcome with
  | error problem =>
    rw [hrun] at hout
    cases hout
  | ok w =>
    rw [hrun] at hout
    cases hout
    exact isWide_toInt w.word

theorem nameValue_exact (hs : scope.InKind) {ident : Ident} {v : Value}
    (h : scope.toScope.nameValue iota.toNat ident.name = .ok v) :
    scope.toScope.exactValue? iota.toNat (.name ident) = some v ∧ v.InKind := by
  rw [Scope.exactValue?]
  cases hconst : scope.toScope.constant? ident.name with
  | some u =>
    obtain ⟨w, hw, rfl⟩ := Option.map_eq_some_iff.1 hconst
    unfold Scope.nameValue at h
    rw [hconst] at h
    cases h
    exact ⟨rfl, hs _ w hw⟩
  | none =>
    rw [Scope.nameValue_of_none hconst] at h
    split_ifs at h with hiota
    cases h
    exact ⟨if_pos hiota, nofun⟩

/-- A conversion keeps the value of its only argument. -/
theorem call_exact {callee : Expr} {args : List Expr} {v : Value}
    (ih : ∀ arg ∈ args, ∀ {u}, scope.toScope.eval iota.toNat arg = .ok u →
      scope.toScope.exactValue? iota.toNat arg = some u ∧ u.InKind)
    (h : scope.toScope.eval iota.toNat (.call callee args) = .ok v) :
    scope.toScope.exactValue? iota.toNat (.call callee args) = some v ∧ v.InKind := by
  rw [Scope.eval] at h
  split at h
  · cases h
  · rename_i kind hkind
    obtain ⟨arg, rfl, hname⟩ := Scope.conversionKind_eq_ok hkind
    rw [Scope.evalFirst] at h
    rw [Scope.exactValue?, hname]
    split at h
    · cases h
    · rename_i u hu
      obtain ⟨rfl, hv⟩ := convert_eq_ok h
      have harg := (ih arg List.mem_cons_self (Option.some.inj hu)).1
      rw [Scope.exactArgument?, harg]
      exact ⟨rfl, hv⟩
    · cases h

/-- **An expression that has a value has its exact value.** -/
theorem exactValue?_of_eval (hs : scope.InKind) {e : Expr} {v : Value}
    (h : scope.toScope.eval iota.toNat e = .ok v) :
    scope.toScope.exactValue? iota.toNat e = some v ∧ v.InKind := by
  induction e using Expr.induct generalizing v with
  | integer text =>
    rw [literalValue_exact h, Scope.exactValue?]
    exact ⟨rfl, nofun⟩
  | rune code =>
    cases h
    exact ⟨by rw [Scope.exactValue?], nofun⟩
  | float | imaginary | string | opaqueForm => cases h
  | selector => cases h
  | name ident => exact nameValue_exact hs h
  | paren inner ih => exact ih h
  | unary op operand ih =>
    rw [Scope.eval] at h
    split at h
    · cases h
    · rename_i u hu
      obtain ⟨hexact, hkind⟩ := ih hu
      rw [Scope.exactValue?, hexact]
      exact unaryValue_exact hkind h
  | binary op left right ihl ihr =>
    rw [Scope.eval] at h
    split at h
    · cases h
    · split at h
      · cases h
      · rename_i l hl
        split at h
        · cases h
        · rename_i r hr
          rw [Scope.exactValue?, (ihl hl).1, Option.bind_some, (ihr hr).1]
          exact binaryValue_exact (isWide_of_eval hl) h
  | call callee args _ ih => exact call_exact ih h

/-- **Evaluation gives the exact value, and the machine loses nothing on the way.**  Whatever comes
of a run, no word is divided by zero or shifted by 128 places or more. -/
theorem eval_exact (hs : scope.InKind) (iota : UInt32) (e : Expr) :
    (scope.run iota e).outcome.map WordValue.toValue = scope.toScope.eval iota.toNat e ∧
    (∀ i ∈ (scope.run iota e).trace, i.Defined) ∧
    ∀ v, scope.toScope.eval iota.toNat e = .ok v →
      scope.toScope.exactValue? iota.toNat e = some v ∧
      ∀ i ∈ (scope.run iota e).trace, i.Exact := by
  obtain ⟨hdefined, houtcome, hexact⟩ := run_computes scope iota e
  refine ⟨houtcome, hdefined, fun v hv => ⟨(exactValue?_of_eval hs hv).1, ?_⟩⟩
  cases hrun : (scope.run iota e).outcome with
  | error problem =>
    rw [hv, hrun] at houtcome
    cases houtcome
  | ok w => exact hexact w hrun

/-- A package with the constant `Flags`, of the kind `uint8` and the value 0xa5. -/
def flagsScope : WordScope where
  constant? name := if name = "Flags" then some ⟨0xa5, some .uint8⟩ else none
  typeMeaning := TypeMeaning.predeclared

/-- `^Flags ^ 1 << 0b10`. -/
def turnedFlags : Expr :=
  .binary .xor (.unary .complement (.name ⟨"Flags", ⟨1, 2⟩⟩))
    (.binary .shiftLeft (.integer "1") (.integer "0b10"))

theorem eval_exact_turnedFlags :
    flagsScope.InKind ∧
    flagsScope.toScope.eval 0 turnedFlags = .ok ⟨94, some .uint8⟩ ∧
    flagsScope.toScope.exactValue? 0 turnedFlags = some ⟨94, some .uint8⟩ ∧
    ∀ i ∈ (flagsScope.run 0 turnedFlags).trace, i.Defined ∧ i.Exact := by
  have hs : flagsScope.InKind := by
    intro name v h kind hkind
    unfold flagsScope at h
    dsimp only at h
    split at h
    · cases h
      cases hkind
      decide
    · cases h
  have heval : flagsScope.toScope.eval 0 turnedFlags = .ok ⟨94, some .uint8⟩ := by cbv
  obtain ⟨-, hdefined, hok⟩ := eval_exact hs 0 turnedFlags
  obtain ⟨hvalue, hexact⟩ := hok _ heval
  exact ⟨hs, heval, hvalue, fun i hi => ⟨hdefined i hi, hexact i hi⟩⟩

end WordScope

end EnumCodec
