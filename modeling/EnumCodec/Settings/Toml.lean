import EnumCodec.Text.CodeRange
import EnumCodec.Text.Hex

/-!
# Settings files

The part of TOML 1.0 that settings need: strings of all four forms, truth values, empty arrays and
tables, the latter written inline, under a heading or by dotted keys.  `Toml.ofText?` reads a text.
Numbers, dates and other arrays are values of no setting, and a text that has one is refused as a
whole.
-/

set_option autoImplicit false

namespace EnumCodec.Toml

open Text

/-- How a table came to be, which decides how it may be added to. -/
inductive Origin
  | inline | heading | implied | dotted
deriving DecidableEq, Repr

/-- A value of a setting. -/
inductive Value
  | string (s : String)
  | boolean (b : Bool)
  | emptyArray
  | table (origin : Origin) (entries : List (String × Value))
deriving Repr

/-- Keys with their values, in the order of the text. -/
abbrev Entries := List (String × Value)

/-! ## Words -/

/-- Blanks within a line. -/
def isSpace (c : Char) : Bool := c == ' ' || c == '\t'

/-- The text after the blanks at its start. -/
def skipSpace (text : List Char) : List Char := text.dropWhile isSpace

/-- The characters that strings and comments may have as they are, quotes and backslashes
included. -/
def isPlain (c : Char) : Bool := c == '\t' || (0x20 ≤ c.toNat && c.toNat != 0x7f)

/-- The character with the number that some hexadecimal digits give. -/
def numbered? (digits : List Char) : Option Char :=
  match positional? 16 digits with
  | some n => if isScalar n then some (Char.ofNat n) else none
  | none => none

/-- The character that a letter after a backslash stands for. -/
def escaped? : Char → Option Char
  | 'b' => some '\x08'
  | 't' => some '\t'
  | 'n' => some '\n'
  | 'f' => some '\x0c'
  | 'r' => some '\r'
  | '"' => some '"'
  | '\\' => some '\\'
  | _ => none

/-- What is read off a text, and the text after it. -/
abbrev Reading (α : Type) := Option (α × List Char)

/-- Puts a character in front of a string. -/
def consTo (c : Char) (r : Reading (List Char)) : Reading (List Char) :=
  r.map fun (s, rest) => (c :: s, rest)

/-- A string up to its closing double quote. -/
def readBasic : List Char → Reading (List Char)
  | [] => none
  | '"' :: rest => some ([], rest)
  | '\\' :: 'u' :: a :: b :: c :: d :: rest =>
    match numbered? [a, b, c, d] with
    | some x => consTo x (readBasic rest)
    | none => none
  | '\\' :: 'U' :: a :: b :: c :: d :: e :: f :: g :: h :: rest =>
    match numbered? [a, b, c, d, e, f, g, h] with
    | some x => consTo x (readBasic rest)
    | none => none
  | '\\' :: c :: rest =>
    match escaped? c with
    | some x => consTo x (readBasic rest)
    | none => none
  | c :: rest => if isPlain c && c != '\\' then consTo c (readBasic rest) else none

/-- A string up to its closing single quote. -/
def readLiteral : List Char → Reading (List Char)
  | [] => none
  | '\'' :: rest => some ([], rest)
  | c :: rest => if isPlain c then consTo c (readLiteral rest) else none

/-- How blanks are read in a string over several lines. -/
inductive Folding
  /-- Blanks are part of the string. -/
  | keep
  /-- A backslash was read, and nothing but blanks since then. -/
  | untilLineEnd
  /-- Blanks and line breaks are dropped. -/
  | drop

/-- A string over several lines up to its closing double quotes.  Up to two more quotes may stand
before these. -/
def readLongBasic : Folding → List Char → Reading (List Char)
  | _, [] => none
  | .untilLineEnd, '\n' :: rest => readLongBasic .drop rest
  | .untilLineEnd, '\r' :: '\n' :: rest => readLongBasic .drop rest
  | .untilLineEnd, c :: rest => if isSpace c then readLongBasic .untilLineEnd rest else none
  | .drop, '\n' :: rest => readLongBasic .drop rest
  | .drop, '\r' :: '\n' :: rest => readLongBasic .drop rest
  | .drop, ' ' :: rest => readLongBasic .drop rest
  | .drop, '\t' :: rest => readLongBasic .drop rest
  | _, '"' :: '"' :: '"' :: '"' :: '"' :: rest => some (['"', '"'], rest)
  | _, '"' :: '"' :: '"' :: '"' :: rest => some (['"'], rest)
  | _, '"' :: '"' :: '"' :: rest => some ([], rest)
  | _, '\n' :: rest => consTo '\n' (readLongBasic .keep rest)
  | _, '\r' :: '\n' :: rest => consTo '\n' (readLongBasic .keep rest)
  | _, '\\' :: 'u' :: a :: b :: c :: d :: rest =>
    match numbered? [a, b, c, d] with
    | some x => consTo x (readLongBasic .keep rest)
    | none => none
  | _, '\\' :: 'U' :: a :: b :: c :: d :: e :: f :: g :: h :: rest =>
    match numbered? [a, b, c, d, e, f, g, h] with
    | some x => consTo x (readLongBasic .keep rest)
    | none => none
  | _, '\\' :: '\n' :: rest => readLongBasic .drop rest
  | _, '\\' :: '\r' :: '\n' :: rest => readLongBasic .drop rest
  | _, '\\' :: c :: rest =>
    if isSpace c then readLongBasic .untilLineEnd rest
    else
      match escaped? c with
      | some x => consTo x (readLongBasic .keep rest)
      | none => none
  | _, c :: rest => if isPlain c && c != '\\' then consTo c (readLongBasic .keep rest) else none

/-- A string over several lines up to its closing single quotes.  Up to two more quotes may stand
before these. -/
def readLongLiteral : List Char → Reading (List Char)
  | [] => none
  | '\'' :: '\'' :: '\'' :: '\'' :: '\'' :: rest => some (['\'', '\''], rest)
  | '\'' :: '\'' :: '\'' :: '\'' :: rest => some (['\''], rest)
  | '\'' :: '\'' :: '\'' :: rest => some ([], rest)
  | '\n' :: rest => consTo '\n' (readLongLiteral rest)
  | '\r' :: '\n' :: rest => consTo '\n' (readLongLiteral rest)
  | c :: rest => if isPlain c then consTo c (readLongLiteral rest) else none

/-- The text after a line break, if it starts with one. -/
def afterLineBreak? : List Char → Option (List Char)
  | '\n' :: rest => some rest
  | '\r' :: '\n' :: rest => some rest
  | _ => none

/-- The text without the line break at its start, if there is one. -/
def skipLineBreak (text : List Char) : List Char := (afterLineBreak? text).getD text

/-- A string of any form. -/
def readString : List Char → Reading (List Char)
  | '"' :: '"' :: '"' :: rest => readLongBasic .keep (skipLineBreak rest)
  | '\'' :: '\'' :: '\'' :: rest => readLongLiteral (skipLineBreak rest)
  | '"' :: rest => readBasic rest
  | '\'' :: rest => readLiteral rest
  | _ => none

/-! ## Keys and values -/

/-- The characters of a key without quotes. -/
def isBareKey (c : Char) : Bool := c.isAlphanum || c == '_' || c == '-'

/-- A key without dots. -/
def readSimpleKey : List Char → Reading String
  | '"' :: rest => (readBasic rest).map fun (s, rest) => (String.ofList s, rest)
  | '\'' :: rest => (readLiteral rest).map fun (s, rest) => (String.ofList s, rest)
  | text =>
    match text.takeWhile isBareKey with
    | [] => none
    | key => some (String.ofList key, text.dropWhile isBareKey)

/-- A key with at most the given number of dots, and the blanks around its parts. -/
def readKey : Nat → List Char → Reading (List String)
  | 0, _ => none
  | dots + 1, text =>
    match readSimpleKey (skipSpace text) with
    | none => none
    | some (key, rest) =>
      match skipSpace rest with
      | '.' :: rest => (readKey dots rest).map fun (keys, rest) => (key :: keys, rest)
      | rest => some ([key], rest)

/-- Adds a value under a dotted key; tables on the way must have come to be in the same way. -/
def addEntry : List String → Value → Entries → Option Entries
  | [], _, _ => none
  | [key], value, entries =>
    match entries.lookup key with
    | some _ => none
    | none => some (entries ++ [(key, value)])
  | key :: keys, value, entries =>
    match entries.lookup key with
    | none => (addEntry keys value []).map fun inner => entries ++ [(key, .table .dotted inner)]
    | some (.table .dotted inner) =>
      (addEntry keys value inner).map fun inner =>
        entries.map fun e => if e.1 == key then (key, .table .dotted inner) else e
    | some _ => none

/-- A truth value. -/
def readBoolean : List Char → Reading Bool
  | 't' :: 'r' :: 'u' :: 'e' :: rest => some (true, rest)
  | 'f' :: 'a' :: 'l' :: 's' :: 'e' :: rest => some (false, rest)
  | _ => none

/-- The text after the blanks, comments and line breaks at its start, which are at most a given
number. -/
def skipLines : Nat → List Char → List Char
  | 0, text => text
  | count + 1, text =>
    match skipSpace text with
    | '#' :: rest => skipLines count (rest.dropWhile isPlain)
    | rest =>
      match afterLineBreak? rest with
      | some rest => skipLines count rest
      | none => rest

mutual

/-- A value, with inline tables up to a depth. -/
def readValue : Nat → List Char → Reading Value
  | 0, _ => none
  | depth + 1, '{' :: rest =>
    match skipSpace rest with
    | '}' :: rest => some (.table .inline [], rest)
    | rest => (readInline depth [] rest).map fun (entries, rest) => (.table .inline entries, rest)
  | _ + 1, '[' :: rest =>
    match skipLines rest.length rest with
    | ']' :: rest => some (.emptyArray, rest)
    | _ => none
  | _ + 1, text =>
    match readString text with
    | some (s, rest) => some (.string (String.ofList s), rest)
    | none => (readBoolean text).map fun (b, rest) => (.boolean b, rest)

/-- The entries of an inline table and its closing brace. -/
def readInline : Nat → Entries → List Char → Reading Entries
  | 0, _, _ => none
  | depth + 1, entries, text =>
    match readKey text.length text with
    | some (keys, '=' :: rest) =>
      match readValue depth (skipSpace rest) with
      | some (value, rest) =>
        match addEntry keys value entries, skipSpace rest with
        | some entries, ',' :: rest => readInline depth entries rest
        | some entries, '}' :: rest => some (entries, rest)
        | _, _ => none
      | none => none
    | _ => none

end

/-! ## Lines -/

/-- The text after a comment and the end of the line; blanks may stand before the comment. -/
def endLine? (text : List Char) : Option (List Char) :=
  let rest :=
    match skipSpace text with
    | '#' :: rest => rest.dropWhile isPlain
    | rest => rest
  match rest with
  | [] => some []
  | rest => afterLineBreak? rest

/-- A line of a settings file. -/
inductive Line
  | empty
  | heading (keys : List String)
  | entry (keys : List String) (value : Value)

/-- What stands at the start of a line, without the end of the line. -/
def readLine (text : List Char) : Reading Line :=
  match skipSpace text with
  | '[' :: rest =>
    match readKey rest.length rest with
    | some (keys, ']' :: rest) => some (.heading keys, rest)
    | _ => none
  | [] => some (.empty, [])
  | c :: rest =>
    if c == '#' || c == '\n' || c == '\r' then some (.empty, c :: rest)
    else
      match readKey (rest.length + 1) (c :: rest) with
      | some (keys, '=' :: rest) =>
        (readValue rest.length (skipSpace rest)).map fun (value, rest) => (.entry keys value, rest)
      | _ => none

/-- The lines of a text, at most the given number. -/
def readLines : Nat → List Char → Option (List Line)
  | 0, _ => none
  | _ + 1, [] => some []
  | count + 1, text =>
    match readLine text with
    | none => none
    | some (line, rest) =>
      match endLine? rest with
      | none => none
      | some rest => (readLines count rest).map (line :: ·)

/-! ## The whole table -/

/-- Opens a table by a heading.  Tables on the way may be of any kind but must be tables; the table
itself must be new, or so far only implied by other headings. -/
def openTable : List String → Entries → Option Entries
  | [], _ => none
  | [key], entries =>
    match entries.lookup key with
    | none => some (entries ++ [(key, .table .heading [])])
    | some (.table .implied inner) =>
      some (entries.map fun e => if e.1 == key then (key, .table .heading inner) else e)
    | some _ => none
  | key :: keys, entries =>
    match entries.lookup key with
    | none => (openTable keys []).map fun inner => entries ++ [(key, .table .implied inner)]
    | some (.table .inline _) => none
    | some (.table origin inner) =>
      (openTable keys inner).map fun inner =>
        entries.map fun e => if e.1 == key then (key, .table origin inner) else e
    | some _ => none

/-- Changes the table under some keys. -/
def changeAt (change : Entries → Option Entries) : List String → Entries → Option Entries
  | [], entries => change entries
  | key :: keys, entries =>
    match entries.lookup key with
    | some (.table origin inner) =>
      (changeAt change keys inner).map fun inner =>
        entries.map fun e => if e.1 == key then (key, .table origin inner) else e
    | _ => none

/-- Adds lines to a table; entries go under the last heading. -/
def addLines : List Line → (heading : List String) → Entries → Option Entries
  | [], _, entries => some entries
  | .empty :: lines, heading, entries => addLines lines heading entries
  | .heading keys :: lines, _, entries =>
    match openTable keys entries with
    | some entries => addLines lines keys entries
    | none => none
  | .entry keys value :: lines, heading, entries =>
    match changeAt (addEntry keys value) heading entries with
    | some entries => addLines lines heading entries
    | none => none

/-- The settings in a text; a byte-order mark may stand in front. -/
def ofText? (source : String) : Option Entries :=
  let text :=
    match source.toList with
    | '\ufeff' :: rest => rest
    | text => text
  match readLines (text.length + 1) text with
  | some lines => addLines lines [] []
  | none => none

end EnumCodec.Toml
