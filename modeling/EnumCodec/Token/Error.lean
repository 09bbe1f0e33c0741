import EnumCodec.Position
import EnumCodec.Text.Printable

/-!
# What can be wrong with the words of a text

In the generator this is `LexError`.
-/

set_option autoImplicit false

namespace EnumCodec

/-- Why a word cannot be read. -/
inductive LexicalProblem
  | unclosedComment
  | unclosedString
  | unclosedRawString
  | unclosedRune
  | emptyRune
  | unclosedEscape
  | unknownEscape (c : Char)
  | badEscapeDigit
  | badCodePoint
  | strayCharacter (c : Char)
deriving DecidableEq, Repr

/-- The wording of a lexical problem. -/
def LexicalProblem.message : LexicalProblem → String
  | unclosedComment => "comment not terminated"
  | unclosedString => "string literal not terminated"
  | unclosedRawString => "raw string literal not terminated"
  | unclosedRune => "rune literal not terminated"
  | emptyRune => "empty rune literal or unescaped ' in rune literal"
  | unclosedEscape => "escape sequence not terminated"
  | unknownEscape c => "unknown escape sequence \\" ++ c.toString
  | badEscapeDigit => "illegal character in escape sequence"
  | badCodePoint => "escape sequence is invalid Unicode code point"
  | strayCharacter c => "invalid character " ++ Text.quoted c

/-- A lexical problem and the start of the word or comment that has it. -/
structure LexicalError where
  problem : LexicalProblem
  pos : Pos
deriving DecidableEq, Repr

/-- The problem, then its place. -/
def LexicalError.text (e : LexicalError) : String :=
  e.problem.message ++ " (at " ++ e.pos.text ++ ")"

end EnumCodec
