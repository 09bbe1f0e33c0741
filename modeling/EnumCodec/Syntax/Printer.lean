import EnumCodec.Syntax
import EnumCodec.Text.Printable

/-!
# Expressions as text

`Expr.text` writes an expression on one line.  Operators with two operands have blanks around them,
and parentheses stand only where the tree has them.
-/

set_option autoImplicit false

namespace EnumCodec.Expr

open Text

/-- A character literal; a number that is no character is written in base sixteen. -/
def runeText (code : Nat) : String :=
  if isScalar code then quoted (Char.ofNat code)
  else "'\\U" ++ hexText8 code ++ "'"

mutual

/-- An expression as text. -/
def text : Expr → String
  | integer s | float s | imaginary s => s
  | rune code => runeText code
  | string body => "\"" ++ body ++ "\""
  | name ident => ident.name
  | selector base field => base.text ++ "." ++ field.name
  | paren inner => "(" ++ inner.text ++ ")"
  | unary op operand => op.text ++ operand.text
  | binary op left right => left.text ++ " " ++ op.text ++ " " ++ right.text
  | call callee args => callee.text ++ "(" ++ argsText args ++ ")"
  | opaqueForm construct => "<" ++ construct.text ++ ">"

/-- Arguments, with commas between them. -/
def argsText : List Expr → String
  | [] => ""
  | [e] => e.text
  | e :: es => e.text ++ ", " ++ argsText es

end

end EnumCodec.Expr
