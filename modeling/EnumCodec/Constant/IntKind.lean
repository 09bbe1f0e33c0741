import EnumCodec.Constant.Bits

/-!
# Integer kinds

The predeclared integer types and the integers that each can hold.  The kinds without a width in
their name are 64 bits wide.

In the generator `IntKind.ofName?` is `from_basic`, and `TypeMeaning` is `TypeResolution`.
-/

set_option autoImplicit false

namespace EnumCodec

/-- A predeclared integer type. -/
inductive IntKind
  | int | int8 | int16 | int32 | int64 | uint | uint8 | uint16 | uint32 | uint64 | uintptr
deriving DecidableEq, Repr

namespace IntKind

/-- The kind that a predeclared name stands for; two kinds have a second name. -/
def ofName? : String → Option IntKind
  | "int" => some int
  | "int8" => some int8
  | "int16" => some int16
  | "int32" | "rune" => some int32
  | "int64" => some int64
  | "uint" => some uint
  | "uint8" | "byte" => some uint8
  | "uint16" => some uint16
  | "uint32" => some uint32
  | "uint64" => some uint64
  | "uintptr" => some uintptr
  | _ => none

/-- The name of a kind. -/
def name : IntKind → String
  | int => "int"
  | int8 => "int8"
  | int16 => "int16"
  | int32 => "int32"
  | int64 => "int64"
  | uint => "uint"
  | uint8 => "uint8"
  | uint16 => "uint16"
  | uint32 => "uint32"
  | uint64 => "uint64"
  | uintptr => "uintptr"

/-- The width of a kind in bits. -/
def bits : IntKind → Nat
  | int8 | uint8 => 8
  | int16 | uint16 => 16
  | int32 | uint32 => 32
  | int | int64 | uint | uint64 | uintptr => 64

/-- Whether a kind has negative integers. -/
def isSigned : IntKind → Bool
  | int | int8 | int16 | int32 | int64 => true
  | _ => false

/-- The least integer of a kind. -/
def min (k : IntKind) : Int := if k.isSigned then -Bits.power (k.bits - 1) else 0

/-- The greatest integer of a kind. -/
def max (k : IntKind) : Int :=
  if k.isSigned then Bits.power (k.bits - 1) - 1 else Bits.power k.bits - 1

/-- Whether a kind can hold the integer. -/
def contains (k : IntKind) (v : Int) : Bool := k.min ≤ v && v ≤ k.max

theorem contains_iff {k : IntKind} {v : Int} : k.contains v = true ↔ k.min ≤ v ∧ v ≤ k.max := by
  simp [contains]

@[simp] theorem ofName?_name (k : IntKind) : ofName? k.name = some k := by cases k <;> rfl

end IntKind

/-- What the name of a type stands for. -/
inductive TypeMeaning
  /-- A type whose values are integers of a kind. -/
  | integer (kind : IntKind)
  /-- Any other type that is declared, with a description. -/
  | other (description : String)
  | undeclared
deriving DecidableEq, Repr

/-- What a name stands for where nothing is declared. -/
def TypeMeaning.predeclared (name : String) : TypeMeaning :=
  match IntKind.ofName? name with
  | some kind => .integer kind
  | none => .undeclared

end EnumCodec
