import EnumCodec.Constant.IntKind
import EnumCodec.Syntax.Printer

/-!
# Why a constant has no value
-/

set_option autoImplicit false

namespace EnumCodec

/-- Why an expression is not one that has an integer value here. -/
inductive Unsupported
  | floatLiteral (text : String)
  | imaginaryLiteral (text : String)
  | stringLiteral (whole : Expr)
  | foreignReference (whole : Expr)
  | booleanConstant (name : String)
  | nilConstant
  | unknownConstant (name : String)
  | operator (whole : Expr)
  | booleanExpression (whole : Expr)
  | mismatchedTypes (left right : IntKind) (whole : Expr)
  | call (whole : Expr)
  | conversion (target description : String)
  | construct (construct : Construct)
  /-- A reason in words of its own. -/
  | other (text : String)
deriving Repr

/-- The wording of a reason. -/
def Unsupported.message : Unsupported → String
  | floatLiteral text => "float literal " ++ text
  | imaginaryLiteral text => "imaginary literal " ++ text
  | stringLiteral whole => "string literal " ++ whole.text
  | foreignReference whole => "reference to " ++ whole.text ++ " from another package"
  | booleanConstant name => "boolean constant " ++ name
  | nilConstant => "nil"
  | unknownConstant name => name ++ " is not a constant of this package"
  | operator whole => "operator in " ++ whole.text
  | booleanExpression whole => "boolean expression " ++ whole.text
  | mismatchedTypes left right whole =>
    "mismatched types " ++ left.name ++ " and " ++ right.name ++ " in " ++ whole.text
  | call whole => "call " ++ whole.text
  | conversion target description =>
    "conversion to non-integer type " ++ target ++ " (" ++ description ++ ")"
  | construct c => c.text
  | other text => text

/-- Why an integer value is out of reach. -/
inductive Overflow
  | literal (text : String)
  | arithmetic
  | divisionByZero
  | negativeShift (count : Int)
  | shiftTooLarge
  | shiftedOut
  | outOfRange (value : Int) (kind : IntKind)
  /-- A reason in words of its own. -/
  | other (text : String)
deriving DecidableEq, Repr

/-- The wording of a reason. -/
def Overflow.message : Overflow → String
  | literal text => "integer literal " ++ text ++ " overflows"
  | arithmetic => "constant overflow"
  | divisionByZero => "division by zero"
  | negativeShift count => "invalid negative shift count " ++ toString count
  | shiftTooLarge => "shift count too large"
  | shiftedOut => "constant shift overflow"
  | outOfRange value kind => "constant " ++ toString value ++ " overflows " ++ kind.name
  | other text => text

/-- Why an expression has no value. -/
inductive EvalProblem
  | unsupported (cause : Unsupported)
  | overflow (cause : Overflow)
deriving Repr

end EnumCodec
