import EnumCodec.Text.CodeRange

/-!
# White space and trimming

* `isBlank` is the Unicode property `White_Space`.
* `trim` drops blanks from both ends of a text.
-/

set_option autoImplicit false

namespace EnumCodec.Text

/-- The code points with the property `White_Space`, as increasing ranges. -/
def blankRanges : List CodeRange := [
  (0x9, 0xd), (0x20, 0x20), (0x85, 0x85), (0xa0, 0xa0), (0x1680, 0x1680), (0x2000, 0x200a),
  (0x2028, 0x2029), (0x202f, 0x202f), (0x205f, 0x205f), (0x3000, 0x3000)]

/-- The Unicode property `White_Space`. -/
def isBlank (c : Char) : Bool := inRanges blankRanges c

/-- The text without the blanks at its start and at its end. -/
def trimmed (text : List Char) : List Char :=
  ((text.dropWhile isBlank).reverse.dropWhile isBlank).reverse

/-- A text between two characters that are not blank is its own trimming. -/
theorem trimmed_eq_self {c d : Char} {text : List Char} (first : isBlank c = false)
    (last : isBlank d = false) : trimmed (c :: (text ++ [d])) = c :: (text ++ [d]) := by
  simp [trimmed, first, last]

/-- The text without the blanks at its start and at its end. -/
def trim (s : String) : String := String.ofList (trimmed s.toList)

end EnumCodec.Text
