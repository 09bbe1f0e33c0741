import EnumCodec.Token.Gap
import EnumCodec.Token.Lexeme

/-!
# Reading a text word by word

A `Scanner` stands at a place of a text.  `Scanner.next` skips the gap and gives one token; a line
break, or the end of the text, after a word that can end a statement gives a statement end.
`scan` gives all tokens of a text; the last one is the end of the text, and from there `next` gives
it again.

Main statement: `Scanner.next_load_lt` — a token other than the end of the text uses up some of
what the scanner has before it, so that reading all tokens ends.

In the generator this is the `Lexer`: `Scanner.next` is `next_token`, and `scan` is `tokenize`.
-/

set_option autoImplicit false

namespace EnumCodec

/-- A place in a text, what follows it, and whether a line break here ends a statement. -/
structure Scanner where
  rest : List Char
  pos : Pos
  pending : Bool
deriving Repr

namespace Scanner

/-- The byte-order mark. -/
def byteOrderMark : Char := '\ufeff'

/-- The start of a text; a byte-order mark in front is not counted as a character. -/
def ofText (text : List Char) : Scanner :=
  match text with
  | [] => ⟨[], Pos.start, false⟩
  | c :: rest => ⟨if c = byteOrderMark then rest else c :: rest, Pos.start, false⟩

/-- The word at a place where neither white space nor a comment stands. -/
def word (pos : Pos) : List Char → Except LexicalError (Token × Scanner)
  | [] => .ok (⟨.endOfText, pos, []⟩, ⟨[], pos, false⟩)
  | c :: text =>
    match Lexeme.read c text with
    | .error problem => .error ⟨problem, pos⟩
    | .ok l => .ok (⟨l.kind, pos, l.text⟩, ⟨l.rest, pos.advance l.text, l.kind.endsStatement⟩)

/-- The place of the statement end that is due: at the first line break of the gap, or else at the
end of the text. -/
def impliedEnd? (s : Scanner) (blanks : List (List Char)) (rest : List Char) : Option Pos :=
  if s.pending then
    match lineBreak? s.pos blanks with
    | some pos => some pos
    | none => if rest.isEmpty then some (s.pos.advance blanks.flatten) else none
  else none

/-- The next token. -/
def next (s : Scanner) : Except LexicalError (Token × Scanner) :=
  match readGap s.rest with
  | .error before => .error ⟨.unclosedComment, s.pos.advance before⟩
  | .ok (blanks, rest) =>
    let pos := s.pos.advance blanks.flatten
    match s.impliedEnd? blanks rest with
    | some place => .ok (⟨.semicolon, place, []⟩, ⟨rest, pos, false⟩)
    | none => word pos rest

/-- How much is left to read: every character, and the statement end that may be due. -/
def load (s : Scanner) : Nat := 2 * s.rest.length + (if s.pending then 1 else 0)

theorem word_load {pos : Pos} {text : List Char} {t : Token} {s : Scanner}
    (h : word pos text = .ok (t, s)) (ht : t.kind ≠ .endOfText) : s.load < 2 * text.length := by
  unfold word at h
  split at h
  · simp at h; simp [← h.1] at ht
  · split at h
    · simp at h
    · rename_i l hl
      simp at h
      have := Lexeme.rest_length_lt hl
      rw [← h.2]
      simp only [load]
      split <;> omega

/-- A token other than the end of the text uses up some of what is left to read. -/
theorem next_load_lt {s s' : Scanner} {t : Token} (h : s.next = .ok (t, s'))
    (ht : t.kind ≠ .endOfText) : s'.load < s.load := by
  unfold next at h
  split at h
  · simp at h
  · rename_i blanks rest hg
    have hlen : rest.length ≤ s.rest.length := by
      rw [← readGap_split hg, List.length_append]; omega
    simp only at h
    split at h
    · rename_i place hp
      simp at h
      rw [← h.2]
      have : s.pending = true := by
        unfold impliedEnd? at hp
        split at hp
        · assumption
        · simp at hp
      simp only [load, this]
      simp; omega
    · have := word_load h ht
      simp only [load] at this ⊢
      split <;> omega

/-- All tokens from here on, the end of the text included. -/
def tokens (s : Scanner) : Except LexicalError (List Token) :=
  match _h : s.next with
  | .error e => .error e
  | .ok (t, s') =>
    if _ht : t.kind = .endOfText then .ok [t]
    else
      match tokens s' with
      | .error e => .error e
      | .ok ts => .ok (t :: ts)
termination_by s.load
decreasing_by exact next_load_lt _h _ht

end Scanner

/-- The tokens of a text. -/
def scan (source : String) : Except LexicalError (List Token) :=
  (Scanner.ofText source.toList).tokens

end EnumCodec
