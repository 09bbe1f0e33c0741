import EnumCodec.Constant.Bits
import EnumCodec.Constant.Problem
import EnumCodec.Literal.Integer

/-!
# Values of constant expressions

`Scope.eval` gives the integer value of an expression.  A value without a kind is any integer of the
wide range; a value with a kind is checked against that kind after every step.

* `convert` gives a value a kind.
* `unaryValue`, `binaryValue` and `shiftValue` are the operators on values.

In the generator this is the `Evaluator`: `Scope.eval` is `eval`, `nameValue` is `lookup`, `unaryValue`,
`binaryValue` and `shiftValue` are `unary`, `binary` and `shift`, `conversionKind` is what `call`
checks, and `withKind` is `finish`.
-/

set_option autoImplicit false

namespace EnumCodec

/-- The value of a constant; an untyped one has no kind. -/
structure Value where
  value : Int
  kind : Option IntKind
deriving DecidableEq, Repr

/-- The range of untyped values: the integers of 128 bits. -/
def isWide (v : Int) : Bool := -Bits.power 127 ≤ v && v < Bits.power 127

/-- The integer, if it lies in the range of untyped values. -/
def wide? (v : Int) : Option Int := if isWide v then some v else none

/-- What an expression can refer to. -/
structure Scope where
  constant? : String → Option Value
  typeMeaning : String → TypeMeaning

/-- The integer as a value of the kind, if the kind can hold it. -/
def convert (v : Int) (kind : IntKind) : Except EvalProblem Value :=
  if kind.contains v then .ok ⟨v, some kind⟩ else .error (.overflow (.outOfRange v kind))

/-- The integer as a value of the kind, or as an untyped value. -/
def withKind (v : Int) : Option IntKind → Except EvalProblem Value
  | some kind => convert v kind
  | none => .ok ⟨v, none⟩

/-- An integer that was computed, if it was in range. -/
def inRange (v : Option Int) (cause : Overflow) : Except EvalProblem Int :=
  match v with
  | some v => .ok v
  | none => .error (.overflow cause)

/-- All bits turned round, within the width of the kind if that has no negative integers. -/
def complementOf (v : Value) : Int :=
  match v.kind with
  | some kind => if kind.isSigned then Bits.complement v.value
      else Bits.and (Bits.complement v.value) kind.max
  | none => Bits.complement v.value

/-- An operator with one operand, in the expression `whole`. -/
def unaryValue (op : UnaryOp) (v : Value) (whole : Expr) : Except EvalProblem Value :=
  match op with
  | .plus => withKind v.value v.kind
  | .negate =>
    match inRange (wide? (-v.value)) .arithmetic with
    | .error e => .error e
    | .ok n => withKind n v.kind
  | .complement => withKind (complementOf v) v.kind
  | .not | .dereference | .addressOf | .receive => .error (.unsupported (.operator whole))

/-- A shift.  The kind is that of the left operand. -/
def shiftValue (toLeft : Bool) (l r : Value) : Except EvalProblem Value :=
  if r.value < 0 then .error (.overflow (.negativeShift r.value))
  else if toLeft then
    if l.value = 0 then withKind 0 l.kind
    else if 127 ≤ r.value then .error (.overflow .shiftTooLarge)
    else
      match inRange (wide? (l.value * Bits.power r.value.toNat)) .shiftedOut with
      | .error e => .error e
      | .ok n => withKind n l.kind
  else withKind (l.value / Bits.power (Nat.min r.value.toNat 127)) l.kind

/-- The kind of a result, if the kinds of the operands fit together. -/
def commonKind (l r : Option IntKind) : Except (IntKind × IntKind) (Option IntKind) :=
  match l, r with
  | some a, some b => if a = b then .ok (some a) else .error (a, b)
  | some a, none => .ok (some a)
  | none, r => .ok r

/-- The quotient cut towards zero, if it lies in the range. -/
def quotient? (a b : Int) : Option Int := wide? (a.tdiv b)

/-- The remainder of the quotient cut towards zero, if the quotient lies in the range. -/
def remainder? (a b : Int) : Option Int := (quotient? a b).map fun _ => a.tmod b

/-- An operator with two integer operands, other than a shift. -/
def integerResult (op : BinaryOp) (a b : Int) : Except EvalProblem Int :=
  match op with
  | .add => inRange (wide? (a + b)) .arithmetic
  | .sub => inRange (wide? (a - b)) .arithmetic
  | .mul => inRange (wide? (a * b)) .arithmetic
  | .quotient =>
    if b = 0 then .error (.overflow .divisionByZero) else inRange (quotient? a b) .arithmetic
  | .remainder =>
    if b = 0 then .error (.overflow .divisionByZero) else inRange (remainder? a b) .arithmetic
  | .and => .ok (Bits.and a b)
  | .or => .ok (Bits.or a b)
  | .xor => .ok (Bits.xor a b)
  | .andNot => .ok (Bits.andNot a b)
  | _ => .error (.overflow .arithmetic)

/-- An operator with two operands, in the expression `whole`. -/
def binaryValue (op : BinaryOp) (l r : Value) (whole : Expr) : Except EvalProblem Value :=
  match op with
  | .shiftLeft => shiftValue true l r
  | .shiftRight => shiftValue false l r
  | _ =>
    match commonKind l.kind r.kind with
    | .error (a, b) => .error (.unsupported (.mismatchedTypes a b whole))
    | .ok kind =>
      match integerResult op l.value r.value with
      | .error e => .error e
      | .ok n => withKind n kind

/-- The value of an integer literal. -/
def literalValue (text : String) : Except EvalProblem Value :=
  match (IntegerLiteral.value? text).bind fun n => wide? n with
  | some v => .ok ⟨v, none⟩
  | none => .error (.overflow (.literal text))

/-- The name that is called, past parentheses. -/
def calledName? : Expr → Option String
  | .name ident => some ident.name
  | .paren inner => calledName? inner
  | _ => none

namespace Scope

/-- The value of a name that is not selected from another one. -/
def nameValue (scope : Scope) (iota : Nat) (name : String) : Except EvalProblem Value :=
  match scope.constant? name with
  | some v => .ok v
  | none =>
    match name with
    | "iota" => .ok ⟨iota, none⟩
    | "true" | "false" => .error (.unsupported (.booleanConstant name))
    | "nil" => .error (.unsupported .nilConstant)
    | _ => .error (.unsupported (.unknownConstant name))

/-- The kind of a conversion: what is called is the name of an integer type, with one argument. -/
def conversionKind (scope : Scope) (callee : Expr) (args : List Expr) :
    Except EvalProblem IntKind :=
  match calledName? callee, args with
  | some target, [_] =>
    match scope.typeMeaning target with
    | .integer kind => .ok kind
    | .other description => .error (.unsupported (.conversion target description))
    | .undeclared => .error (.unsupported (.call (.call callee args)))
  | _, _ => .error (.unsupported (.call (.call callee args)))

mutual

/-- The value of an expression on a line of a group of constants. -/
def eval (scope : Scope) (iota : Nat) : Expr → Except EvalProblem Value
  | .integer text => literalValue text
  | .rune code => .ok ⟨code, none⟩
  | .float text => .error (.unsupported (.floatLiteral text))
  | .imaginary text => .error (.unsupported (.imaginaryLiteral text))
  | .string body => .error (.unsupported (.stringLiteral (.string body)))
  | .name ident => scope.nameValue iota ident.name
  | .selector base field => .error (.unsupported (.foreignReference (.selector base field)))
  | .paren inner => scope.eval iota inner
  | .unary op operand =>
    match scope.eval iota operand with
    | .error e => .error e
    | .ok v => unaryValue op v (.unary op operand)
  | .binary op left right =>
    if op.isBoolean then .error (.unsupported (.booleanExpression (.binary op left right)))
    else
      match scope.eval iota left with
      | .error e => .error e
      | .ok l =>
        match scope.eval iota right with
        | .error e => .error e
        | .ok r => binaryValue op l r (.binary op left right)
  | .call callee args =>
    match scope.conversionKind callee args with
    | .error e => .error e
    | .ok kind =>
      match scope.evalFirst iota args with
      | some (.error e) => .error e
      | some (.ok v) => convert v.value kind
      | none => .error (.unsupported (.call (.call callee args)))
  | .opaqueForm c => .error (.unsupported (.construct c))

/-- The value of the first expression of a list. -/
def evalFirst (scope : Scope) (iota : Nat) : List Expr → Option (Except EvalProblem Value)
  | [] => none
  | e :: _ => some (scope.eval iota e)

end

end Scope

end EnumCodec
