import EnumCodec.Proofs.Agreement
import EnumCodec.Proofs.WordRun

/-!
# Evaluation with words

`WordScope.run` evaluates an expression with the instructions of a machine, and lists them.  It
gives what `Scope.eval` gives, which computes with integers.

* `wordResult_computes`, `shiftWord_computes`, `unaryWord_computes`, … — each operation on words
  stands for the one on integers.
* `WordScope.run_computes` — the same for every expression.
-/

set_option autoImplicit false

namespace EnumCodec

/-! ## The evaluator -/

open WordRun

/-- The value of a constant as a word; an untyped one has no kind. -/
structure WordValue where
  word : Word
  kind : Option IntKind
deriving DecidableEq

/-- The value that a word stands for. -/
def WordValue.toValue (v : WordValue) : Value := ⟨v.word.toInt, v.kind⟩

/-- The least word of a kind. -/
def leastWord (k : IntKind) : WordRun Word := do
  if k.isSigned then exec (.neg (← exec (.shiftLeft 1 (.ofNat (k.bits - 1))))) else pure 0

/-- The greatest word of a kind. -/
def greatestWord (k : IntKind) : WordRun Word := do
  if k.isSigned then exec (.sub (← exec (.shiftLeft 1 (.ofNat (k.bits - 1)))) 1)
  else exec (.sub (← exec (.shiftLeft 1 (.ofNat k.bits))) 1)

/-- The word as a value of the kind, if the kind can hold it. -/
def convertWord (a : Word) (k : IntKind) : WordRun WordValue := do
  let least ← leastWord k
  let greatest ← greatestWord k
  if least.sle a && a.sle greatest then pure ⟨a, some k⟩
  else fail (.overflow (.outOfRange a.toInt k))

/-- The word as a value of the kind, or as an untyped value. -/
def wordWithKind (a : Word) : Option IntKind → WordRun WordValue
  | some k => convertWord a k
  | none => pure ⟨a, none⟩

/-- All bits turned round, within the width of the kind if that has no negative integers. -/
def complementWord (v : WordValue) : WordRun Word :=
  match v.kind with
  | some k =>
    if k.isSigned then exec (.not v.word)
    else do
      let turned ← exec (.not v.word)
      let mask ← greatestWord k
      exec (.and turned mask)
  | none => exec (.not v.word)

/-- An operator with one operand, in the expression `whole`. -/
def unaryWord (op : UnaryOp) (v : WordValue) (whole : Expr) : WordRun WordValue :=
  match op with
  | .plus => wordWithKind v.word v.kind
  | .negate => do wordWithKind (← checked v.word.negOverflow (.neg v.word)) v.kind
  | .complement => do wordWithKind (← complementWord v) v.kind
  | .not | .dereference | .addressOf | .receive => fail (.unsupported (.operator whole))

/-- A word as a number of places, or the greatest number if it is none. -/
def countOf (a : Word) : UInt32 :=
  if 0 ≤ a.toInt ∧ a.toInt < 2 ^ 32 then .ofNat a.toNat else .ofNat (2 ^ 32 - 1)

/-- A shift to the left, undone to see whether anything is lost. -/
def shiftedLeft (a : Word) (count : UInt32) : WordRun Word := do
  if a = 0 then pure 0
  else if 127 ≤ count then fail (.overflow .shiftTooLarge)
  else
    let shifted ← exec (.shiftLeft a count)
    let back ← exec (.shiftRight shifted count)
    if back = a then pure shifted else fail (.overflow .shiftedOut)

/-- A shift.  The kind is that of the left operand. -/
def shiftWord (toLeft : Bool) (l r : WordValue) : WordRun WordValue := do
  if r.word.toInt < 0 then fail (.overflow (.negativeShift r.word.toInt))
  else if toLeft then wordWithKind (← shiftedLeft l.word (countOf r.word)) l.kind
  else wordWithKind (← exec (.shiftRight l.word (min (countOf r.word) 127))) l.kind

/-- An operator with two operands, other than a shift. -/
def wordResult (op : BinaryOp) (a b : Word) : WordRun Word :=
  match op with
  | .add => checked (a.saddOverflow b) (.add a b)
  | .sub => checked (a.ssubOverflow b) (.sub a b)
  | .mul => checked (a.smulOverflow b) (.mul a b)
  | .quotient => if b = 0 then fail (.overflow .divisionByZero) else divided a b (.div a b)
  | .remainder => if b = 0 then fail (.overflow .divisionByZero) else divided a b (.rem a b)
  | .and => exec (.and a b)
  | .or => exec (.or a b)
  | .xor => exec (.xor a b)
  | .andNot => do exec (.and a (← exec (.not b)))
  | _ => fail (.overflow .arithmetic)

/-- An operator with two operands, in the expression `whole`. -/
def binaryWord (op : BinaryOp) (l r : WordValue) (whole : Expr) : WordRun WordValue :=
  match op with
  | .shiftLeft => shiftWord true l r
  | .shiftRight => shiftWord false l r
  | _ =>
    match commonKind l.kind r.kind with
    | .error (a, b) => fail (.unsupported (.mismatchedTypes a b whole))
    | .ok kind => do wordWithKind (← wordResult op l.word r.word) kind

/-- The value of an integer literal, if it is a word. -/
def literalWord (text : String) : WordRun WordValue :=
  match IntegerLiteral.value? text with
  | some n =>
    if n < 2 ^ 127 then pure ⟨.ofNat 128 n, none⟩ else fail (.overflow (.literal text))
  | none => fail (.overflow (.literal text))

/-- What an expression can refer to, with the values as words. -/
structure WordScope where
  constant? : String → Option WordValue
  typeMeaning : String → TypeMeaning

namespace WordScope

/-- The scope that the words stand for. -/
def toScope (scope : WordScope) : Scope where
  constant? name := (scope.constant? name).map WordValue.toValue
  typeMeaning := scope.typeMeaning

theorem constant?_toScope (scope : WordScope) (name : String) :
    scope.toScope.constant? name = (scope.constant? name).map WordValue.toValue := rfl

/-- The value of a name that is not selected from another one. -/
def nameWord (scope : WordScope) (iota : UInt32) (name : String) : WordRun WordValue :=
  match scope.constant? name with
  | some v => pure v
  | none =>
    if name = "iota" then pure ⟨.ofNat 128 iota.toNat, none⟩
    else if name = "true" ∨ name = "false" then fail (.unsupported (.booleanConstant name))
    else if name = "nil" then fail (.unsupported .nilConstant)
    else fail (.unsupported (.unknownConstant name))

mutual

/-- The run that evaluates an expression on a line of a group of constants. -/
def run (scope : WordScope) (iota : UInt32) : Expr → WordRun WordValue
  | .integer text => literalWord text
  | .rune code => pure ⟨.ofNat 128 code, none⟩
  | .float text => fail (.unsupported (.floatLiteral text))
  | .imaginary text => fail (.unsupported (.imaginaryLiteral text))
  | .string body => fail (.unsupported (.stringLiteral (.string body)))
  | .name ident => scope.nameWord iota ident.name
  | .selector base field => fail (.unsupported (.foreignReference (.selector base field)))
  | .paren inner => scope.run iota inner
  | .unary op operand => do unaryWord op (← scope.run iota operand) (.unary op operand)
  | .binary op left right =>
    if op.isBoolean then fail (.unsupported (.booleanExpression (.binary op left right)))
    else do
      let l ← scope.run iota left
      let r ← scope.run iota right
      binaryWord op l r (.binary op left right)
  | .call callee args => do
    let kind ← done (scope.toScope.conversionKind callee args)
    let v ← scope.runFirst iota args (.unsupported (.call (.call callee args)))
    convertWord v.word kind
  | .opaqueForm c => fail (.unsupported (.construct c))

/-- The run that evaluates the first expression of a list. -/
def runFirst (scope : WordScope) (iota : UInt32) : List Expr → EvalProblem → WordRun WordValue
  | [], problem => fail problem
  | e :: _, _ => scope.run iota e

end

end WordScope

/-! ## Each operation -/

theorem leastWord_computes (k : IntKind) : (leastWord k).Computes BitVec.toInt (.ok k.min) := by
  cases k <;> exact ⟨by decide +kernel, rfl, fun _ _ => by decide +kernel⟩

theorem greatestWord_computes (k : IntKind) :
    (greatestWord k).Computes BitVec.toInt (.ok k.max) := by
  cases k <;> exact ⟨by decide +kernel, rfl, fun _ _ => by decide +kernel⟩

theorem convertWord_computes (a : Word) (k : IntKind) :
    (convertWord a k).Computes WordValue.toValue (convert a.toInt k) := by
  refine (leastWord_computes k).bind nofun fun least hleast => ?_
  refine (greatestWord_computes k).bind nofun fun greatest hgreatest => ?_
  have hsame : (least.sle a && a.sle greatest) = k.contains a.toInt := by
    rw [IntKind.contains, BitVec.sle_eq_decide, BitVec.sle_eq_decide, Except.ok.inj hleast,
      Except.ok.inj hgreatest]
  rw [hsame, convert]
  split
  · exact .pure _
  · exact .fail _

theorem wordWithKind_computes (a : Word) (kind : Option IntKind) :
    (wordWithKind a kind).Computes WordValue.toValue (withKind a.toInt kind) := by
  cases kind with
  | none => exact .pure _
  | some k => exact convertWord_computes a k

/-- A word that is computed, and its kind. -/
theorem thenKind_computes {r : WordRun Word} {x : Except EvalProblem Int} (kind : Option IntKind)
    (hr : r.Computes BitVec.toInt x) :
    (r >>= fun a => wordWithKind a kind).Computes WordValue.toValue
      (x.bind fun n => withKind n kind) := by
  refine hr.bind (fun e he => (by rw [he]; rfl)) fun a ha => ?_
  rw [ha]
  exact wordWithKind_computes a kind

/-- An instruction whose result is dropped exactly if it is out of range. -/
theorem checked_computes {overflow : Bool} (i : Instr) (hd : i.Defined)
    (hover : overflow = !isWide i.meaning) :
    (checked overflow i).Computes BitVec.toInt (inRange (wide? i.meaning) .arithmetic) := by
  refine .exec_bind hd (fun c hc => Instr.exact_of_isWide (inRange_wide?_eq_ok hc).1) ?_
  · subst hover
    cases hw : isWide i.meaning with
    | false =>
      simp only [wide?, hw]
      exact .fail _
    | true =>
      simp only [wide?, hw]
      rw [← Instr.exact_of_isWide hw]
      exact .pure _

theorem notWord_computes (a : Word) :
    (exec (.not a)).Computes BitVec.toInt (.ok (Bits.complement a.toInt)) := by
  rw [Bits.complement_eq]
  exact .exec (.not a) trivial (Instr.exact_of_closed trivial)

theorem andWord_computes (a b : Word) :
    (exec (.and a b)).Computes BitVec.toInt (.ok (Bits.and a.toInt b.toInt)) := by
  rw [Bits.and_eq_land]
  exact .exec (.and a b) trivial (Instr.exact_of_closed trivial)

theorem complementWord_computes (v : WordValue) :
    (complementWord v).Computes BitVec.toInt (.ok (complementOf v.toValue)) := by
  obtain ⟨a, kind⟩ := v
  cases kind with
  | none => exact notWord_computes a
  | some k =>
    show (if k.isSigned then _ else _ : WordRun Word).Computes _ (.ok (if k.isSigned then _ else _))
    split
    · exact notWord_computes a
    · refine (notWord_computes a).bind nofun fun turned hturned => ?_
      refine (greatestWord_computes k).bind nofun fun mask hmask => ?_
      rw [WordValue.toValue, Except.ok.inj hturned, Except.ok.inj hmask]
      exact andWord_computes turned mask

theorem unaryWord_computes (op : UnaryOp) (v : WordValue) (whole : Expr) :
    (unaryWord op v whole).Computes WordValue.toValue (unaryValue op v.toValue whole) := by
  cases op with
  | plus => exact wordWithKind_computes _ _
  | negate =>
    have hvalue : unaryValue .negate v.toValue whole =
        (inRange (wide? (-v.word.toInt)) .arithmetic).bind fun n => withKind n v.kind := by
      cases hn : inRange (wide? (-v.word.toInt)) .arithmetic <;>
        simp only [unaryValue, WordValue.toValue, hn] <;> rfl
    rw [hvalue]
    exact thenKind_computes v.kind (checked_computes (.neg v.word) trivial (negOverflow_eq _))
  | complement => exact thenKind_computes v.kind (complementWord_computes v)
  | not | dereference | addressOf | receive => exact .fail _

/-- A division, where zero is asked for first. -/
theorem divided_computes {a b : Word} (i : Instr) (hd : b ≠ 0 → i.Defined)
    (he : isWide (a.toInt.tdiv b.toInt) = true → i.Exact) :
    (if b = 0 then fail (.overflow .divisionByZero) else divided a b i).Computes BitVec.toInt
      (if b.toInt = 0 then .error (.overflow .divisionByZero)
      else inRange ((quotient? a.toInt b.toInt).map fun _ => i.meaning) .arithmetic) := by
  have hzero : b.toInt = 0 ↔ b = 0 := BitVec.toInt_inj (y := 0)
  have hw := isWide_tdiv_iff (a := a) (b := b)
  by_cases hb : b = 0
  · rw [if_pos hb, if_pos (hzero.2 hb)]
    exact .fail _
  · rw [if_neg hb, if_neg (hb ∘ hzero.1), quotient?, wide?]
    unfold divided
    by_cases hmin : a = BitVec.intMin 128 ∧ b = -1
    · rw [if_pos (by simp [hmin]), if_neg fun h => hw.1 h hmin]
      exact .fail _
    · have hgo : ¬ (b = 0 || (a = BitVec.intMin 128 && b = -1)) = true := by
        simpa only [hb, decide_false, Bool.false_or, Bool.and_eq_true, decide_eq_true_eq] using hmin
      rw [if_neg hgo, if_pos (hw.2 hmin)]
      exact .exec i (hd hb) (he (hw.2 hmin))

theorem quotient?_map (a b : Int) : ((quotient? a b).map fun _ => a.tdiv b) = quotient? a b := by
  unfold quotient? wide?
  split <;> rfl

theorem wordResult_computes (op : BinaryOp) (a b : Word) :
    (wordResult op a b).Computes BitVec.toInt (integerResult op a.toInt b.toInt) := by
  cases op with
  | add => exact checked_computes (.add a b) trivial (overflow_eq _)
  | sub => exact checked_computes (.sub a b) trivial (overflow_eq _)
  | mul => exact checked_computes (.mul a b) trivial (overflow_eq _)
  | quotient =>
    have h := divided_computes (a := a) (.div a b) id (Instr.exact_of_isWide (i := .div a b))
    rw [Instr.meaning, quotient?_map] at h
    exact h
  | remainder => exact divided_computes (.rem a b) id fun _ => Instr.exact_of_closed trivial
  | and => exact andWord_computes a b
  | or =>
    unfold integerResult
    rw [Bits.or_eq_lor]
    exact .exec (.or a b) trivial (Instr.exact_of_closed trivial)
  | xor =>
    unfold integerResult
    rw [Bits.xor_eq_xor]
    exact .exec (.xor a b) trivial (Instr.exact_of_closed trivial)
  | andNot =>
    refine (notWord_computes b).bind (fun e he => by cases he) fun turned hturned => ?_
    rw [integerResult, Bits.andNot, Except.ok.inj hturned]
    exact andWord_computes a turned
  | _ => exact .fail _

theorem toNat_countOf {a : Word} (h : 0 ≤ a.toInt) :
    (countOf a).toNat = min a.toInt.toNat (2 ^ 32 - 1) := by
  have hnat : a.toInt.toNat = a.toNat := by
    rw [BitVec.toInt_eq_toNat_of_msb (by simpa [BitVec.msb_eq_toInt] using h), Int.toNat_natCast]
  unfold countOf
  split
  · have hlt : a.toNat < UInt32.size := by
      show a.toNat < 2 ^ 32
      omega
    rw [UInt32.toNat_ofNat_of_lt' hlt]
    omega
  · rw [UInt32.toNat_ofNat_of_lt' (by decide)]
    omega

theorem shiftedLeft_computes {a b : Word} (h : 0 ≤ b.toInt) :
    (shiftedLeft a (countOf b)).Computes BitVec.toInt
      (if a.toInt = 0 then .ok 0
      else if 127 ≤ b.toInt then .error (.overflow .shiftTooLarge)
      else inRange (wide? (a.toInt * Bits.power b.toInt.toNat)) .shiftedOut) := by
  have hzero : a.toInt = 0 ↔ a = 0 := BitVec.toInt_inj (y := 0)
  have hcount := toNat_countOf h
  have hlarge : 127 ≤ countOf b ↔ 127 ≤ b.toInt := by
    rw [UInt32.le_iff_toNat_le, hcount]
    show 127 ≤ min b.toInt.toNat (2 ^ 32 - 1) ↔ _
    omega
  unfold shiftedLeft
  by_cases ha : a = 0
  · rw [if_pos ha, if_pos (hzero.2 ha)]
    exact .pure 0
  · rw [if_neg ha, if_neg (ha ∘ hzero.1)]
    by_cases hb : 127 ≤ b.toInt
    · rw [if_pos (hlarge.2 hb), if_pos hb]
      exact .fail _
    · rw [if_neg (hb ∘ hlarge.1), if_neg hb]
      have heq : (countOf b).toNat = b.toInt.toNat := by omega
      have hlt : (countOf b).toNat < 128 := by omega
      have hback := shiftBack_eq_iff (a := a) hlt
      rw [Bits.power_eq, ← heq]
      refine .exec_bind hlt (fun c hc => Instr.exact_of_isWide (inRange_wide?_eq_ok hc).1)
        (.exec_bind hlt (fun _ _ => Instr.exact_of_closed trivial) ?_)
      cases hw : isWide (a.toInt * 2 ^ (countOf b).toNat) with
      | false =>
        rw [if_neg fun he => Bool.false_ne_true (hw.symm.trans (hback.1 he)), wide?, hw]
        exact .fail _
      | true =>
        have hexact : (Instr.shiftLeft a (countOf b)).Exact := Instr.exact_of_isWide hw
        rw [if_pos (hback.2 hw), wide?, hw]
        unfold Instr.Exact at hexact
        show Computes BitVec.toInt _ (.ok (Instr.shiftLeft a (countOf b)).meaning)
        rw [← hexact]
        exact .pure _

/-- A shift to the right by as many places as a word has moves all of them out. -/
theorem shiftedRight_computes (a : Word) {b : Word} (h : 0 ≤ b.toInt) :
    (exec (.shiftRight a (min (countOf b) 127))).Computes BitVec.toInt
      (.ok (a.toInt / Bits.power (Nat.min b.toInt.toNat 127))) := by
  have hcount : (min (countOf b) 127).toNat = min b.toInt.toNat 127 := by
    have h127 : (127 : UInt32).toNat = 127 := rfl
    rw [Std.min_eq_if, apply_ite UInt32.toNat, h127, toNat_countOf h]
    simp only [UInt32.le_iff_toNat_le, h127, toNat_countOf h]
    split <;> omega
  have hlt : (min (countOf b) 127).toNat < 128 := by omega
  have hexec := Computes.exec (.shiftRight a (min (countOf b) 127)) hlt
    (Instr.exact_of_closed trivial)
  rw [Instr.meaning, hcount, Int.fdiv_eq_ediv_of_nonneg _ (Int.pow_nonneg (by decide)),
    ← Bits.power_eq] at hexec
  exact hexec

theorem shiftValue_left {l r : Value} (h : 0 ≤ r.value) : shiftValue true l r =
    (if l.value = 0 then .ok 0
    else if 127 ≤ r.value then .error (.overflow .shiftTooLarge)
    else inRange (wide? (l.value * Bits.power r.value.toNat)) .shiftedOut).bind
      fun n => withKind n l.kind := by
  unfold shiftValue
  rw [if_neg (Int.not_lt.2 h), if_pos rfl]
  split
  · rfl
  · split
    · rfl
    · cases inRange (wide? (l.value * Bits.power r.value.toNat)) .shiftedOut <;> rfl

theorem shiftWord_computes (toLeft : Bool) (l r : WordValue) :
    (shiftWord toLeft l r).Computes WordValue.toValue (shiftValue toLeft l.toValue r.toValue) := by
  unfold shiftWord
  by_cases hneg : r.word.toInt < 0
  · rw [if_pos hneg, shiftValue, WordValue.toValue, WordValue.toValue, if_pos hneg]
    exact .fail _
  · have hcount : 0 ≤ r.word.toInt := Int.not_lt.1 hneg
    rw [if_neg hneg]
    cases toLeft with
    | false =>
      rw [shiftValue, WordValue.toValue, WordValue.toValue, if_neg hneg]
      exact thenKind_computes l.kind (shiftedRight_computes l.word hcount)
    | true =>
      rw [shiftValue_left hcount]
      exact thenKind_computes l.kind (shiftedLeft_computes hcount)

/-- An operator other than a shift, on operands whose kinds have to fit together. -/
theorem sameKind_computes (op : BinaryOp) (l r : WordValue) (whole : Expr) :
    (match commonKind l.kind r.kind with
      | .error (a, b) => fail (.unsupported (.mismatchedTypes a b whole))
      | .ok kind => do wordWithKind (← wordResult op l.word r.word) kind : WordRun _).Computes
        WordValue.toValue
      (match commonKind l.kind r.kind with
      | .error (a, b) => .error (.unsupported (.mismatchedTypes a b whole))
      | .ok kind =>
        match integerResult op l.word.toInt r.word.toInt with
        | .error e => .error e
        | .ok n => withKind n kind) := by
  cases commonKind l.kind r.kind with
  | error kinds => exact .fail _
  | ok kind =>
    have h := thenKind_computes kind (wordResult_computes op l.word r.word)
    cases hn : integerResult op l.word.toInt r.word.toInt <;> rw [hn] at h <;> exact h

theorem binaryWord_computes (op : BinaryOp) (l r : WordValue) (whole : Expr) :
    (binaryWord op l r whole).Computes WordValue.toValue
      (binaryValue op l.toValue r.toValue whole) := by
  cases op with
  | shiftLeft => exact shiftWord_computes true l r
  | shiftRight => exact shiftWord_computes false l r
  | _ => exact sameKind_computes _ l r whole

theorem literalWord_computes (text : String) :
    (literalWord text).Computes WordValue.toValue (literalValue text) := by
  unfold literalWord literalValue
  cases IntegerLiteral.value? text with
  | none => exact .fail _
  | some n =>
    have hwide : isWide n = true ↔ n < 2 ^ 127 := by
      rw [isWide_iff]
      omega
    rw [Option.bind_some, wide?]
    dsimp only
    by_cases hn : n < 2 ^ 127
    · rw [if_pos hn, if_pos (hwide.2 hn), ← toInt_ofNat hn]
      exact .pure _
    · rw [if_neg hn, if_neg (hn ∘ hwide.1)]
      exact .fail _

/-! ## Every expression -/

/-- What a name stands for that is no constant of the package. -/
theorem Scope.nameValue_of_none {scope : Scope} {iota : Nat} {name : String}
    (h : scope.constant? name = none) : scope.nameValue iota name =
      if name = "iota" then .ok ⟨iota, none⟩
      else if name = "true" ∨ name = "false" then .error (.unsupported (.booleanConstant name))
      else if name = "nil" then .error (.unsupported .nilConstant)
      else .error (.unsupported (.unknownConstant name)) := by
  unfold Scope.nameValue
  rw [h]
  dsimp only
  split <;> simp_all

namespace WordScope

variable {scope : WordScope} {iota : UInt32}

theorem nameWord_computes (name : String) :
    (scope.nameWord iota name).Computes WordValue.toValue
      (scope.toScope.nameValue iota.toNat name) := by
  have hiota : (BitVec.ofNat 128 iota.toNat).toInt = iota.toNat := by
    have := iota.toNat_lt
    exact toInt_ofNat (by omega)
  unfold nameWord
  split
  · rename_i v hv
    unfold Scope.nameValue
    rw [constant?_toScope, hv]
    exact .pure v
  · rename_i hnone
    rw [Scope.nameValue_of_none (by rw [constant?_toScope, hnone, Option.map_none])]
    split_ifs
    · rw [← hiota]
      exact .pure _
    · exact .fail _
    · exact .fail _
    · exact .fail _

/-- **A run computes what the evaluation says.** -/
theorem run_computes (scope : WordScope) (iota : UInt32) (e : Expr) :
    (scope.run iota e).Computes WordValue.toValue (scope.toScope.eval iota.toNat e) := by
  induction e using Expr.induct with
  | integer text => exact literalWord_computes text
  | rune code =>
    have hcode : (BitVec.ofNat 128 code).toInt = (code : Nat) := by
      have : (code : Nat) < 2 ^ 32 := code.isLt
      exact toInt_ofNat (by omega)
    rw [run, Scope.eval, ← hcode]
    exact .pure _
  | float | imaginary | string | opaqueForm => exact .fail _
  | selector => exact .fail _
  | name ident => exact nameWord_computes ident.name
  | paren inner ih => exact ih
  | unary op operand ih =>
    rw [run, Scope.eval]
    refine ih.bind (fun e he => by rw [he]) fun v hv => ?_
    rw [hv]
    exact unaryWord_computes op v _
  | binary op left right ihl ihr =>
    rw [run, Scope.eval]
    split
    · exact .fail _
    · refine ihl.bind (fun e he => by rw [he]) fun l hl => ?_
      rw [hl]
      refine ihr.bind (fun e he => by rw [he]) fun r hr => ?_
      rw [hr]
      exact binaryWord_computes op l r _
  | call callee args _ ihargs =>
    rw [run, Scope.eval]
    refine (Computes.done _).bind (fun e he => by rw [he]) fun kind hkind => ?_
    rw [hkind]
    cases args with
    | nil => exact .fail (.unsupported (.call (.call callee [])))
    | cons arg rest =>
      refine (ihargs arg List.mem_cons_self).bind (fun e he => ?_) fun v hv => ?_
      · rw [Scope.evalFirst, he]
      · rw [Scope.evalFirst, hv]
        exact convertWord_computes v.word kind

end WordScope

end EnumCodec
