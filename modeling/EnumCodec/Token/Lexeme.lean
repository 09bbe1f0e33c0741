import EnumCodec.Token
import EnumCodec.Token.Error
import EnumCodec.Text.Alphabetic
import EnumCodec.Text.Numeric
import EnumCodec.Text.Hex
import EnumCodec.Text.Pieces

/-!
# Single words

`Lexeme.read` reads one word off the front of a text that starts with neither white space nor a
comment.  Main statement: `Lexeme.read_split`, by which the characters of the word and the rest are
the text, and `Lexeme.read_nonempty`, by which a word has characters.

Each kind of word has its own reader; a reader gives the characters it takes and those it leaves.

In the generator these are `lex_identifier_or_keyword` (`wordKind`), `lex_number` with `lex_exponent`
(`readNumber`), `lex_string` (`readStringBody`), `lex_raw_string` (`readRawBody`), `lex_rune`
(`readRuneBody`), `lex_escape` (`readEscape`) and `lex_punct` (`readSymbol?`).
-/

set_option autoImplicit false

namespace EnumCodec

open Text

/-- A text cut in two: what a reader takes, and what it leaves. -/
structure Split where
  taken : List Char
  rest : List Char
deriving DecidableEq, Repr

namespace Split

/-- The longest start of the text whose characters all pass. -/
def whileTrue (p : Char → Bool) (text : List Char) : Split :=
  ⟨text.takeWhile p, text.dropWhile p⟩

/-- Goes on reading what the first reader leaves. -/
def andThen (a : Split) (reader : List Char → Split) : Split :=
  let b := reader a.rest
  ⟨a.taken ++ b.taken, b.rest⟩

/-- Counts characters in front of the text as taken too. -/
def after (front : List Char) (a : Split) : Split := ⟨front ++ a.taken, a.rest⟩

/-- The whole text, taken and left. -/
def whole (a : Split) : List Char := a.taken ++ a.rest

@[simp] theorem whole_whileTrue (p : Char → Bool) (text : List Char) :
    (whileTrue p text).whole = text := by
  simp [whileTrue, whole]

@[simp] theorem whole_after (front : List Char) (a : Split) :
    (after front a).whole = front ++ a.whole := by
  simp [after, whole]

theorem whole_andThen {a : Split} {reader : List Char → Split}
    (h : ∀ text, (reader text).whole = text) : (a.andThen reader).whole = a.whole := by
  have := h a.rest
  simp only [whole] at this
  simp [andThen, whole, this]

end Split

/-! ## Names -/

/-- The characters that start a name. -/
def isNameStart (c : Char) : Bool := c == '_' || isAlphabetic c

/-- The characters that go on a name. -/
def isNamePart (c : Char) : Bool := isNameStart c || isNumeric c

/-- A reserved word, or else a name. -/
def wordKind (text : List Char) : TokenKind :=
  let s := String.ofList text
  match Keyword.ofText? s with
  | some k => .keyword k
  | none => .name s

/-! ## Numbers -/

/-- Digits and the separators between them. -/
def readDigits (digit : Char → Bool) : List Char → Split :=
  Split.whileTrue fun c => digit c || c == '_'

/-- A point and the digits after it, if a point comes first. -/
def readFraction (digit : Char → Bool) : List Char → Split
  | '.' :: text => (readDigits digit text).after ['.']
  | text => ⟨[], text⟩

/-- A sign, if one comes first. -/
def readSign : List Char → Split
  | '+' :: text => ⟨['+'], text⟩
  | '-' :: text => ⟨['-'], text⟩
  | text => ⟨[], text⟩

/-- An exponent mark, its sign and its digits, if a mark comes first. -/
def readExponent (marks : List Char) : List Char → Split
  | [] => ⟨[], []⟩
  | c :: text =>
    if c ∈ marks then ((readSign text).andThen (readDigits Char.isDigit)).after [c]
    else ⟨[], c :: text⟩

/-- Digits, fraction and exponent; the flag tells whether there was a fraction or an exponent. -/
def readMantissa (digit : Char → Bool) (marks : List Char) (text : List Char) : Bool × Split :=
  let whole := readDigits digit text
  let fraction := readFraction digit whole.rest
  let exponent := readExponent marks fraction.rest
  (!fraction.taken.isEmpty || !exponent.taken.isEmpty,
   ⟨whole.taken ++ (fraction.taken ++ exponent.taken), exponent.rest⟩)

/-- Whether a number starts here. -/
def startsNumber : List Char → Bool
  | '.' :: c :: _ => c.isDigit
  | c :: _ => c.isDigit
  | [] => false

/-- A number without a mark for imaginary numbers; the flag tells whether it is written as a
fraction. -/
def readReal (text : List Char) : Bool × Split :=
  match text with
  | '0' :: c :: rest =>
    if c = 'x' ∨ c = 'X' then
      let (isFloat, m) := readMantissa (isDigitIn 16) ['p', 'P'] rest
      (isFloat, m.after ['0', c])
    else if c = 'b' ∨ c = 'B' ∨ c = 'o' ∨ c = 'O' then
      (false, (readDigits Char.isDigit rest).after ['0', c])
    else readMantissa Char.isDigit ['e', 'E'] text
  | _ => readMantissa Char.isDigit ['e', 'E'] text

/-- A number: its token and its characters. -/
def readNumber (text : List Char) : TokenKind × Split :=
  let (isFloat, m) := readReal text
  match m.rest with
  | 'i' :: rest =>
    let taken := m.taken ++ ['i']
    (.imaginary (String.ofList taken), ⟨taken, rest⟩)
  | _ =>
    let s := String.ofList m.taken
    (if isFloat then .float s else .integer s, m)

@[simp] theorem readDigits_whole (digit : Char → Bool) (text : List Char) :
    (readDigits digit text).whole = text := by
  simp [readDigits]

@[simp] theorem readFraction_whole (digit : Char → Bool) (text : List Char) :
    (readFraction digit text).whole = text := by
  unfold readFraction
  split
  · simp
  · rfl

@[simp] theorem readSign_whole (text : List Char) : (readSign text).whole = text := by
  unfold readSign
  split <;> simp [Split.whole]

@[simp] theorem readExponent_whole (marks text : List Char) :
    (readExponent marks text).whole = text := by
  cases text with
  | nil => simp [readExponent, Split.whole]
  | cons c text =>
    by_cases h : c ∈ marks
    · simp [readExponent, h, Split.whole_andThen (readDigits_whole _)]
    · simp [readExponent, h, Split.whole]

@[simp] theorem readMantissa_whole (digit : Char → Bool) (marks text : List Char) :
    (readMantissa digit marks text).2.whole = text := by
  have h1 := readDigits_whole digit text
  have h2 := readFraction_whole digit (readDigits digit text).rest
  have h3 := readExponent_whole marks (readFraction digit (readDigits digit text).rest).rest
  simp only [Split.whole] at h1 h2 h3
  simp [readMantissa, Split.whole, h1, h2, h3]

@[simp] theorem readReal_whole (text : List Char) : (readReal text).2.whole = text := by
  unfold readReal
  split
  · split
    · simp
    · split
      · simp
      · simp
  · simp

@[simp] theorem readNumber_whole (text : List Char) : (readNumber text).2.whole = text := by
  have h := readReal_whole text
  unfold readNumber
  split
  rename_i isFloat m hm
  rw [hm] at h
  simp only at h ⊢
  split
  · rename_i rest hr
    simp [Split.whole, hr] at h
    simp [Split.whole, h]
  · exact h

theorem readMantissa_taken {marks text : List Char} (h : startsNumber text = true) :
    (readMantissa Char.isDigit marks text).2.taken ≠ [] := by
  unfold startsNumber at h
  split at h
  · simp [readMantissa, readDigits, Split.whileTrue, readFraction, Split.after]
  · simp [readMantissa, readDigits, Split.whileTrue, h]
  · simp at h

theorem readNumber_taken {text : List Char} (h : startsNumber text = true) :
    (readNumber text).2.taken ≠ [] := by
  have hreal : (readReal text).2.taken ≠ [] := by
    unfold readReal
    split
    · split
      · simp [Split.after]
      · split
        · simp [Split.after]
        · exact readMantissa_taken h
    · exact readMantissa_taken h
  unfold readNumber
  split
  rename_i isFloat m hm
  rw [hm] at hreal
  simp only at hreal ⊢
  split
  · simp
  · exact hreal

/-! ## Strings and characters -/

/-- The body of a string up to its closing quote, and what follows the quote.  A backslash takes
the next character with it, whatever that is. -/
def readStringBody : List Char → Option Split
  | [] => none
  | '\n' :: _ => none
  | '"' :: text => some ⟨[], text⟩
  | '\\' :: c :: text => (readStringBody text).map (Split.after ['\\', c])
  | c :: text => (readStringBody text).map (Split.after [c])

/-- The body of a raw string up to its closing quote, and what follows the quote. -/
def readRawBody (text : List Char) : Option Split :=
  let s := Split.whileTrue (· != '\x60') text
  match s.rest with
  | [] => none
  | _ :: rest => some ⟨s.taken, rest⟩

/-- The character that a letter after a backslash stands for. -/
def simpleEscape? : Char → Option CharNumber
  | 'a' => some 0x07
  | 'b' => some 0x08
  | 'f' => some 0x0c
  | 'n' => some 0x0a
  | 'r' => some 0x0d
  | 't' => some 0x09
  | 'v' => some 0x0b
  | '\\' => some 0x5c
  | '\'' => some 0x27
  | '"' => some 0x22
  | _ => none

/-- The base, the digits already read and the number of digits still to come of an escape that
gives a character by its number. -/
def numberEscape? (c : Char) : Option (Nat × List Char × Nat) :=
  if isDigitIn 8 c then some (8, [c], 2)
  else if c = 'x' then some (16, [], 2)
  else if c = 'u' then some (16, [], 4)
  else if c = 'U' then some (16, [], 8)
  else none

/-- What follows a backslash in a character literal: the number of the character, and the
characters of the escape without the backslash. -/
def readEscape : List Char → Except LexicalProblem (CharNumber × Split)
  | [] => .error .unclosedEscape
  | c :: text =>
    match simpleEscape? c with
    | some code => .ok (code, ⟨[c], text⟩)
    | none =>
      match numberEscape? c with
      | none => .error (.unknownEscape c)
      | some (base, front, count) =>
        let digits := text.take count
        if digits.length < count then .error .badEscapeDigit
        else
          match positional? base (front ++ digits) with
          | none => .error .badEscapeDigit
          | some code =>
            if h : isScalar code then
              .ok (⟨code, lt_size_of_isScalar h⟩, ⟨c :: digits, text.drop count⟩)
            else .error .badCodePoint

/-- The character between the quotes of a character literal. -/
def readRuneBody : List Char → Except LexicalProblem (CharNumber × Split)
  | [] => .error .unclosedRune
  | '\n' :: _ => .error .unclosedRune
  | '\'' :: _ => .error .emptyRune
  | '\\' :: text => do
    let (code, s) ← readEscape text
    .ok (code, s.after ['\\'])
  | c :: text => .ok (c.val.toFin, ⟨[c], text⟩)

theorem readStringBody_eq {text : List Char} {s : Split} (h : readStringBody text = some s) :
    text = s.taken ++ '"' :: s.rest := by
  fun_induction readStringBody text generalizing s with
  | case1 => simp at h
  | case2 => simp at h
  | case3 text => simp at h; subst h; simp
  | case4 c text ih =>
    obtain ⟨u, hu, rfl⟩ := Option.map_eq_some_iff.1 h
    simp [Split.after, ← ih hu]
  | case5 c text _ _ _ ih =>
    obtain ⟨u, hu, rfl⟩ := Option.map_eq_some_iff.1 h
    simp [Split.after, ← ih hu]

theorem readRawBody_eq {text : List Char} {s : Split} (h : readRawBody text = some s) :
    text = s.taken ++ '\x60' :: s.rest := by
  have hw := Split.whole_whileTrue (· != '\x60') text
  unfold readRawBody at h
  simp only at h
  split at h
  · simp at h
  · rename_i c rest hr
    simp only [Option.some.injEq] at h
    subst h
    have hc : c = '\x60' := by
      have := List.head?_dropWhile_not (· != '\x60') text
      simp only [Split.whileTrue] at hr
      rw [hr] at this
      simpa using this
    rw [Split.whole, hr, hc] at hw
    exact hw.symm

theorem readEscape_whole {text : List Char} {code : CharNumber} {s : Split}
    (h : readEscape text = .ok (code, s)) : s.whole = text := by
  unfold readEscape at h
  split at h
  · simp at h
  · split at h
    · simp at h; simp [← h.2, Split.whole]
    · split at h
      · simp at h
      · simp only at h
        split at h
        · simp at h
        · split at h
          · simp at h
          · split at h
            · simp at h; simp [← h.2, Split.whole]
            · simp at h

theorem readRuneBody_whole {text : List Char} {code : CharNumber} {s : Split}
    (h : readRuneBody text = .ok (code, s)) : s.whole = text := by
  unfold readRuneBody at h
  split at h
  · simp at h
  · simp at h
  · simp at h
  · rename_i text
    cases he : readEscape text with
    | error e => simp [he, bind, Except.bind] at h
    | ok r =>
      obtain ⟨code', s'⟩ := r
      simp [he, bind, Except.bind] at h
      simp [← h.2, readEscape_whole he]
  · simp at h; simp [← h.2, Split.whole]

/-! ## Operators -/

/-- The first spelling in the list that the text starts with. -/
def readSymbol? (text : List Char) : Option (Symbol × Split) :=
  Symbol.spellings.findSome? fun (spelling, symbol) =>
    (afterStart? spelling text).map fun rest => (symbol, ⟨spelling, rest⟩)

theorem spelling_ne_nil : ∀ p ∈ Symbol.spellings, p.1 ≠ [] := by decide

theorem readSymbol?_eq {text : List Char} {symbol : Symbol} {s : Split}
    (h : readSymbol? text = some (symbol, s)) :
    s.whole = text ∧ (s.taken, symbol) ∈ Symbol.spellings := by
  unfold readSymbol? at h
  obtain ⟨p, hp, hs⟩ := List.exists_of_findSome?_eq_some h
  obtain ⟨rest, hr, he⟩ := Option.map_eq_some_iff.1 hs
  simp only [Prod.mk.injEq] at he
  obtain ⟨rfl, rfl⟩ := he
  exact ⟨(afterStart?_eq_some_iff.1 hr).symm, hp⟩

/-! ## Words -/

/-- One word: its token, its characters, and the text that follows. -/
structure Lexeme where
  kind : TokenKind
  text : List Char
  rest : List Char
deriving DecidableEq, Repr

namespace Lexeme

/-- Reads one word off a text that is not empty. -/
def read (c : Char) (text : List Char) : Except LexicalProblem Lexeme :=
  if isNameStart c then
    let s := Split.whileTrue isNamePart (c :: text)
    .ok ⟨wordKind s.taken, s.taken, s.rest⟩
  else if startsNumber (c :: text) then
    let (kind, s) := readNumber (c :: text)
    .ok ⟨kind, s.taken, s.rest⟩
  else if c = '"' then
    match readStringBody text with
    | none => .error .unclosedString
    | some s => .ok ⟨.string (String.ofList s.taken), '"' :: s.taken ++ ['"'], s.rest⟩
  else if c = '\x60' then
    match readRawBody text with
    | none => .error .unclosedRawString
    | some s => .ok ⟨.string (String.ofList s.taken), '\x60' :: s.taken ++ ['\x60'], s.rest⟩
  else if c = '\'' then do
    let (code, s) ← readRuneBody text
    match s.rest with
    | '\'' :: rest => .ok ⟨.rune code, '\'' :: s.taken ++ ['\''], rest⟩
    | _ => .error .unclosedRune
  else if c = ';' then .ok ⟨.semicolon, [c], text⟩
  else
    match readSymbol? (c :: text) with
    | some (symbol, s) => .ok ⟨.symbol symbol, s.taken, s.rest⟩
    | none => .error (.strayCharacter c)

/-- A word and the text after it are the text. -/
theorem read_split {c : Char} {text : List Char} {l : Lexeme} (h : read c text = .ok l) :
    l.text ++ l.rest = c :: text := by
  unfold read at h
  split at h
  · simp at h
    subst h
    exact Split.whole_whileTrue isNamePart (c :: text)
  split at h
  · simp at h
    subst h
    exact readNumber_whole (c :: text)
  split at h
  · split at h
    · simp at h
    · rename_i hc _ s hs
      simp at h
      subst h
      simp [hc, readStringBody_eq hs]
  split at h
  · split at h
    · simp at h
    · rename_i hc _ s hs
      simp at h
      subst h
      simp [hc, readRawBody_eq hs]
  split at h
  · cases hb : readRuneBody text with
    | error e => simp [hb, bind, Except.bind] at h
    | ok r =>
      obtain ⟨code, s⟩ := r
      simp only [hb, bind, Except.bind] at h
      have hw := readRuneBody_whole hb
      split at h
      · rename_i hc _ rest hr
        simp at h
        subst h
        simp only [Split.whole, hr] at hw
        simp [hc, ← hw]
      · simp at h
  split at h
  · rename_i hc
    simp at h
    subst h
    simp
  split at h
  · rename_i symbol s hs
    simp at h
    subst h
    exact (readSymbol?_eq hs).1
  · simp at h

/-- A word has characters. -/
theorem read_nonempty {c : Char} {text : List Char} {l : Lexeme} (h : read c text = .ok l) :
    l.text ≠ [] := by
  unfold read at h
  split at h
  · rename_i hc
    simp at h
    subst h
    simp [Split.whileTrue, isNamePart, hc]
  split at h
  · rename_i hn
    simp at h
    subst h
    exact readNumber_taken hn
  split at h
  · split at h
    · simp at h
    · simp at h; subst h; simp
  split at h
  · split at h
    · simp at h
    · simp at h; subst h; simp
  split at h
  · cases hb : readRuneBody text with
    | error e => simp [hb, bind, Except.bind] at h
    | ok r =>
      simp only [hb, bind, Except.bind] at h
      split at h
      · simp at h; subst h; simp
      · simp at h
  split at h
  · simp at h; subst h; simp
  split at h
  · rename_i symbol s hs
    simp at h
    subst h
    exact spelling_ne_nil _ (readSymbol?_eq hs).2
  · simp at h

theorem rest_length_lt {c : Char} {text : List Char} {l : Lexeme} (h : read c text = .ok l) :
    l.rest.length < (c :: text).length := by
  rw [← read_split h, List.length_append]
  have := List.length_pos_iff.2 (read_nonempty h)
  omega

end Lexeme

end EnumCodec
