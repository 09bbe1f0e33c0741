import EnumCodec.Token
import EnumCodec.Token.Error

/-!
# What can be wrong with a source file
-/

set_option autoImplicit false

namespace EnumCodec

/-- Where a token stands that does not fit. -/
inductive Place
  | packageName | afterDeclaration | declaration
  | constName | constSpec | constGroup
  | typeName | foreignTypeName | typeSpecName | typeSpec | typeGroup | type
  | selector | arguments | parentheses | expression
deriving DecidableEq, Repr

/-- The wording of a place, with what was expected there. -/
def Place.text : Place → String
  | packageName => "in package clause, expected name"
  | afterDeclaration => "after top level declaration"
  | declaration => "in declaration"
  | constName => "in const declaration, expected name"
  | constSpec => "in const declaration"
  | constGroup => "in const declaration, expected ';' or ')'"
  | typeName => "in type, expected name"
  | foreignTypeName => "in qualified type, expected name"
  | typeSpecName => "in type declaration, expected name"
  | typeSpec => "in type declaration"
  | typeGroup => "in type declaration, expected ';' or ')'"
  | type => "in type"
  | selector => "in selector, expected name"
  | arguments => "in argument list, expected ')'"
  | parentheses => "in parenthesized expression, expected ')'"
  | expression => "in expression"

/-- Why a source file is refused. -/
inductive SyntaxProblem
  | lexical (problem : LexicalProblem)
  | noPackageClause (found : TokenKind)
  | blankPackageName
  | strayStatement
  | unexpected (found : TokenKind) (place : Place)
  | unclosedDeclaration
  | unclosedBracket
  | missingValue
  | extraValue
  /-- A name is declared again; the file and place of the other declaration, if it is known. -/
  | redeclared (name : String) (previous : Option (String × Pos))
  /-- A problem in words of its own. -/
  | other (text : String)
deriving DecidableEq, Repr

/-- The wording of a problem. -/
def SyntaxProblem.message : SyntaxProblem → String
  | lexical p => p.message
  | noPackageClause found => "expected 'package', found " ++ found.text
  | blankPackageName => "invalid package name _"
  | strayStatement => "syntax error: non-declaration statement outside function body"
  | unexpected found place => "syntax error: unexpected " ++ found.text ++ " " ++ place.text
  | unclosedDeclaration => "syntax error: unexpected EOF"
  | unclosedBracket => "syntax error: unexpected EOF, expected closing bracket"
  | missingValue => "missing init expr for const declaration"
  | extraValue => "extra init expr"
  | redeclared name none => name ++ " redeclared in this block"
  | redeclared name (some (file, pos)) =>
    name ++ " redeclared in this block (previous declaration at " ++ file ++ ":" ++ pos.text ++ ")"
  | other text => text

/-- A problem and its place in the file. -/
structure SyntaxError where
  problem : SyntaxProblem
  pos : Pos
deriving DecidableEq, Repr

/-- A problem, its file and its place there. -/
structure SourceError extends SyntaxError where
  file : String
deriving DecidableEq, Repr

end EnumCodec
