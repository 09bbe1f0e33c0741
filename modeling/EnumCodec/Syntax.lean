import EnumCodec.Position
import EnumCodec.Text.CodeRange

/-!
# Source files as trees

What is kept of a source file: its package name, its constant declarations with their expressions,
and its type declarations.  Imports, variables and functions leave no trace.

In the generator `Expr.references` is `referenced_idents`, and `TypeName.own?` is `local`.
-/

set_option autoImplicit false

namespace EnumCodec

/-- A name and the place where it stands. -/
structure Ident where
  name : String
  pos : Pos
deriving DecidableEq, Repr

/-- The name that declares nothing. -/
def blankName : String := "_"

/-- Whether the name declares nothing. -/
def Ident.isBlank (i : Ident) : Bool := i.name == blankName

/-- The name of a type, of this package or of another one. -/
inductive TypeName
  | own (name : String)
  | foreign (package name : String)
deriving DecidableEq, Repr

namespace TypeName

/-- The name of a type of this package. -/
def own? : TypeName → Option String
  | own name => some name
  | foreign .. => none

/-- A type name as it is written. -/
def text : TypeName → String
  | own name => name
  | foreign package name => package ++ "." ++ name

end TypeName

/-- Operators with one operand. -/
inductive UnaryOp
  | plus | negate | not | complement | dereference | addressOf | receive
deriving DecidableEq, Repr

/-- The spelling of an operator with one operand. -/
def UnaryOp.text : UnaryOp → String
  | plus => "+"
  | negate => "-"
  | not => "!"
  | complement => "^"
  | dereference => "*"
  | addressOf => "&"
  | receive => "<-"

/-- Operators with two operands. -/
inductive BinaryOp
  | add | sub | mul | quotient | remainder | and | or | xor | shiftLeft | shiftRight | andNot
  | andAnd | orOr | equal | notEqual | less | lessEqual | greater | greaterEqual
deriving DecidableEq, Repr

namespace BinaryOp

/-- How tightly an operator binds, from one to five. -/
def precedence : BinaryOp → Nat
  | mul | quotient | remainder | shiftLeft | shiftRight | and | andNot => 5
  | add | sub | or | xor => 4
  | equal | notEqual | less | lessEqual | greater | greaterEqual => 3
  | andAnd => 2
  | orOr => 1

/-- The spelling of an operator with two operands. -/
def text : BinaryOp → String
  | add => "+"
  | sub => "-"
  | mul => "*"
  | quotient => "/"
  | remainder => "%"
  | and => "&"
  | or => "|"
  | xor => "^"
  | shiftLeft => "<<"
  | shiftRight => ">>"
  | andNot => "&^"
  | andAnd => "&&"
  | orOr => "||"
  | equal => "=="
  | notEqual => "!="
  | less => "<"
  | lessEqual => "<="
  | greater => ">"
  | greaterEqual => ">="

/-- Whether the operator gives a truth value. -/
def isBoolean : BinaryOp → Bool
  | andAnd | orOr | equal | notEqual | less | lessEqual | greater | greaterEqual => true
  | _ => false

end BinaryOp

/-- A construct that is never an integer constant and is kept by name only. -/
inductive Construct
  | typeAssertion | indexExpression | compositeLiteral | functionLiteral | functionType
  | compositeType
deriving DecidableEq, Repr

/-- The name of a construct. -/
def Construct.text : Construct → String
  | typeAssertion => "type assertion"
  | indexExpression => "index expression"
  | compositeLiteral => "composite literal"
  | functionLiteral => "function literal"
  | functionType => "function type"
  | compositeType => "composite type"

/-- Expressions.  Literals keep their text. -/
inductive Expr
  | integer (text : String)
  | float (text : String)
  | imaginary (text : String)
  | rune (code : Text.CharNumber)
  | string (body : String)
  | name (ident : Ident)
  | selector (base : Expr) (field : Ident)
  | paren (inner : Expr)
  | unary (op : UnaryOp) (operand : Expr)
  | binary (op : BinaryOp) (left right : Expr)
  | call (callee : Expr) (args : List Expr)
  | opaqueForm (construct : Construct)
deriving Repr, Inhabited

namespace Expr

mutual

/-- The names an expression mentions as constants or functions, in the order of the text.  What is
selected from another name is not one of them. -/
def references : Expr → List String
  | name ident => [ident.name]
  | paren inner => inner.references
  | unary _ operand => operand.references
  | binary _ left right => left.references ++ right.references
  | call callee args => callee.references ++ referencesAll args
  | integer _ | float _ | imaginary _ | rune _ | string _ | selector .. | opaqueForm _ => []

/-- The names that the expressions of a list mention. -/
def referencesAll : List Expr → List String
  | [] => []
  | e :: es => e.references ++ referencesAll es

end

end Expr

/-- `A, B T = x, y`: one line of a group of constants. -/
structure ConstSpec where
  names : List Ident
  type : Option TypeName
  values : List Expr
  /-- The place of the line in its group, counted from zero. -/
  iota : Nat
deriving Repr

/-- A constant declaration: one line, or a group of lines. -/
structure ConstDecl where
  pos : Pos
  specs : List ConstSpec
deriving Repr

/-- What a type is declared as. -/
inductive TypeShape
  | named (name : TypeName)
  /-- Any other type, described by its first word. -/
  | composite (lead : String)
deriving DecidableEq, Repr

/-- The declaration of a type, by a name of its own or as another name of a type. -/
structure TypeSpec where
  name : Ident
  isAlias : Bool
  shape : TypeShape
deriving DecidableEq, Repr

/-- A source file. -/
structure SourceFile where
  path : String
  package : Ident
  consts : List ConstDecl
  types : List TypeSpec
deriving Repr

end EnumCodec
