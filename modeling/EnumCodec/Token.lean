import EnumCodec.Position
import EnumCodec.Text.CodeRange

/-!
# Tokens

The words of a source text: names, keywords, literals, operators and delimiters, statement ends and
the end of the text.  A token knows where it stands and the characters it was read from; a statement
end that a line break stands for was read from none.

In the generator these are `Keyword`, `Punct`, `TokenKind` and `Token`; `Keyword.ofText?` is
`from_ident`, and `endsStatement` is `ends_statement`.
-/

set_option autoImplicit false

namespace EnumCodec

/-- The reserved words. -/
inductive Keyword
  | kwBreak | kwCase | kwChan | kwConst | kwContinue | kwDefault | kwDefer | kwElse | kwFallthrough
  | kwFor | kwFunc | kwGo | kwGoto | kwIf | kwImport | kwInterface | kwMap | kwPackage | kwRange
  | kwReturn | kwSelect | kwStruct | kwSwitch | kwType | kwVar
deriving DecidableEq, Repr

namespace Keyword

/-- The spelling of a reserved word. -/
def text : Keyword → String
  | kwBreak => "break"
  | kwCase => "case"
  | kwChan => "chan"
  | kwConst => "const"
  | kwContinue => "continue"
  | kwDefault => "default"
  | kwDefer => "defer"
  | kwElse => "else"
  | kwFallthrough => "fallthrough"
  | kwFor => "for"
  | kwFunc => "func"
  | kwGo => "go"
  | kwGoto => "goto"
  | kwIf => "if"
  | kwImport => "import"
  | kwInterface => "interface"
  | kwMap => "map"
  | kwPackage => "package"
  | kwRange => "range"
  | kwReturn => "return"
  | kwSelect => "select"
  | kwStruct => "struct"
  | kwSwitch => "switch"
  | kwType => "type"
  | kwVar => "var"

/-- All reserved words. -/
def all : List Keyword :=
  [kwBreak, kwCase, kwChan, kwConst, kwContinue, kwDefault, kwDefer, kwElse, kwFallthrough,
   kwFor, kwFunc, kwGo, kwGoto, kwIf, kwImport, kwInterface, kwMap, kwPackage, kwRange,
   kwReturn, kwSelect, kwStruct, kwSwitch, kwType, kwVar]

/-- The reserved word with the given spelling. -/
def ofText? (s : String) : Option Keyword := all.find? (fun k => k.text == s)

/-- The reserved words that can be the last word of a statement. -/
def endsStatement : Keyword → Bool
  | kwBreak | kwContinue | kwFallthrough | kwReturn => true
  | _ => false

end Keyword

/-- Operators and delimiters.  The assignments that carry an operator are one symbol, as no
constant or type contains them. -/
inductive Symbol
  | leftParen | rightParen | leftBracket | rightBracket | leftBrace | rightBrace
  | comma | dot | ellipsis | colon | assign | define | operatorAssign
  | plus | minus | star | slash | percent | ampersand | bar | caret | shiftLeft | shiftRight
  | andNot | andAnd | orOr | arrow | increment | decrement
  | equal | notEqual | less | lessEqual | greater | greaterEqual | bang | tilde
deriving DecidableEq, Repr

namespace Symbol

/-- The text by which a symbol is shown. -/
def text : Symbol → String
  | leftParen => "("
  | rightParen => ")"
  | leftBracket => "["
  | rightBracket => "]"
  | leftBrace => "\x7b"
  | rightBrace => "\x7d"
  | comma => ","
  | dot => "."
  | ellipsis => "..."
  | colon => ":"
  | assign => "="
  | define => ":="
  | operatorAssign => "op="
  | plus => "+"
  | minus => "-"
  | star => "*"
  | slash => "/"
  | percent => "%"
  | ampersand => "&"
  | bar => "|"
  | caret => "^"
  | shiftLeft => "<<"
  | shiftRight => ">>"
  | andNot => "&^"
  | andAnd => "&&"
  | orOr => "||"
  | arrow => "<-"
  | increment => "++"
  | decrement => "--"
  | equal => "=="
  | notEqual => "!="
  | less => "<"
  | lessEqual => "<="
  | greater => ">"
  | greaterEqual => ">="
  | bang => "!"
  | tilde => "~"

/-- Whether the symbol opens a bracket. -/
def opens : Symbol → Bool
  | leftParen | leftBracket | leftBrace => true
  | _ => false

/-- Whether the symbol closes a bracket. -/
def closes : Symbol → Bool
  | rightParen | rightBracket | rightBrace => true
  | _ => false

/-- The spellings, longer ones before their beginnings. -/
def spellings : List (List Char × Symbol) :=
  [(['<', '<', '='], operatorAssign), (['>', '>', '='], operatorAssign),
   (['&', '^', '='], operatorAssign), (['.', '.', '.'], ellipsis),
   (['+', '='], operatorAssign), (['-', '='], operatorAssign), (['*', '='], operatorAssign),
   (['/', '='], operatorAssign), (['%', '='], operatorAssign), (['&', '='], operatorAssign),
   (['|', '='], operatorAssign), (['^', '='], operatorAssign),
   (['&', '^'], andNot), (['<', '<'], shiftLeft), (['>', '>'], shiftRight), (['&', '&'], andAnd),
   (['|', '|'], orOr), (['<', '-'], arrow), (['+', '+'], increment), (['-', '-'], decrement),
   (['=', '='], equal), (['!', '='], notEqual), (['<', '='], lessEqual), (['>', '='], greaterEqual),
   ([':', '='], define),
   (['('], leftParen), ([')'], rightParen), (['['], leftBracket), ([']'], rightBracket),
   (['{'], leftBrace), (['}'], rightBrace), ([','], comma), (['.'], dot), ([':'], colon),
   (['='], assign), (['+'], plus), (['-'], minus), (['*'], star), (['/'], slash), (['%'], percent),
   (['&'], ampersand), (['|'], bar), (['^'], caret), (['<'], less), (['>'], greater), (['!'], bang),
   (['~'], tilde)]

end Symbol

/-- What a token is. -/
inductive TokenKind
  | name (text : String)
  | keyword (word : Keyword)
  | integer (text : String)
  | float (text : String)
  | imaginary (text : String)
  /-- A character literal with the number of its character. -/
  | rune (code : Text.CharNumber)
  /-- A string literal with what stands between its quotes. -/
  | string (body : String)
  | symbol (sym : Symbol)
  | semicolon
  | endOfText
deriving DecidableEq, Repr

namespace TokenKind

/-- How a token is named in a message. -/
def text : TokenKind → String
  | name s => "identifier " ++ s
  | keyword k => "keyword " ++ k.text
  | integer s | float s | imaginary s => "literal " ++ s
  | rune _ => "rune literal"
  | string _ => "string literal"
  | symbol s => "'" ++ s.text ++ "'"
  | semicolon => "';'"
  | endOfText => "EOF"

/-- Whether the token opens a bracket. -/
def opens : TokenKind → Bool
  | symbol s => s.opens
  | _ => false

/-- Whether the token closes a bracket. -/
def closes : TokenKind → Bool
  | symbol s => s.closes
  | _ => false

/-- Whether a line break after the token ends a statement. -/
def endsStatement : TokenKind → Bool
  | name _ | integer _ | float _ | imaginary _ | rune _ | string _ => true
  | keyword k => k.endsStatement
  | symbol .rightParen | symbol .rightBracket | symbol .rightBrace
  | symbol .increment | symbol .decrement => true
  | _ => false

end TokenKind

/-- A token, the place of its first character, and its characters. -/
structure Token where
  kind : TokenKind
  pos : Pos
  lexeme : List Char
deriving DecidableEq, Repr

end EnumCodec
