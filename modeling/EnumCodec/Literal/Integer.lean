import EnumCodec.Text.Hex
import EnumCodec.Text.Pieces

/-!
# Integer literals

The number that an integer literal stands for.  Underscores are separators and have no meaning; the
base is sixteen after `0x`, two after `0b`, eight after `0o` or a leading zero, and ten otherwise.
A sign `+` may stand before the digits.  Numbers from 2^128 on have no literal.

In the generator `value?` is `parse_int_literal`.
-/

set_option autoImplicit false

namespace EnumCodec.IntegerLiteral

open Text

/-- The first number that is too large for a literal. -/
def bound : Nat := 1 <<< 128

/-- The literal without separators, in small letters. -/
def normalized (text : List Char) : List Char :=
  (text.filter (· != '_')).map Char.toLower

/-- The base of a normalized literal, and its digits. -/
def baseAndDigits : List Char → Nat × List Char
  | '0' :: 'x' :: digits => (16, digits)
  | '0' :: 'b' :: digits => (2, digits)
  | '0' :: 'o' :: digits => (8, digits)
  | '0' :: d :: digits => (8, d :: digits)
  | digits => (10, digits)

/-- The number that digits stand for, if there is at least one and the number is in range. -/
def number? (base : Nat) : List Char → Option Nat
  | [] => none
  | '+' :: [] => none
  | '+' :: digits => (positional? base digits).filter (· < bound)
  | digits => (positional? base digits).filter (· < bound)

/-- The number that the text of a literal stands for. -/
def value? (text : String) : Option Nat :=
  let (base, digits) := baseAndDigits (normalized text.toList)
  number? base digits

end EnumCodec.IntegerLiteral
