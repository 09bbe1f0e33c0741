/-!
# Positions in a text

A position is a line and a column, both counted from one; a column is a character.  `Pos.advance`
says where reading a stretch of text leads.

In the generator this is `Pos`, and `Pos.advance` is what `bump_char` does to it.
-/

set_option autoImplicit false

namespace EnumCodec

/-- A place in a text. -/
structure Pos where
  line : Nat
  column : Nat
deriving DecidableEq, Repr, Inhabited

namespace Pos

/-- The first character of a text. -/
def start : Pos := ⟨1, 1⟩

/-- The place after one more character: a line feed starts the next line. -/
def step (p : Pos) (c : Char) : Pos :=
  if c = '\n' then ⟨p.line + 1, 1⟩ else ⟨p.line, p.column + 1⟩

/-- The place after a stretch of text. -/
def advance (p : Pos) (text : List Char) : Pos := text.foldl step p

@[simp] theorem advance_nil (p : Pos) : p.advance [] = p := rfl

@[simp] theorem advance_append (p : Pos) (s t : List Char) :
    p.advance (s ++ t) = (p.advance s).advance t := by
  simp [advance]

/-- A position as `line:column`. -/
def text (p : Pos) : String := toString p.line ++ ":" ++ toString p.column

end Pos

end EnumCodec
