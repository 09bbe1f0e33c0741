import EnumCodec.Constant.IntKind

/-!
# Value tables

Constants of one type, collected by value.  Each value has one canonical name, chosen by the
`AliasPolicy`; the other names are its aliases.  The values stand in the order of their first
constants.

In the generator `ValueTable.build` is `build`, whose map from values to slots and whose groups are
`Slots`; `nameOf?`, `valueOf?` and `pairs` are `name_of`, `value_of` and `pairs`.
-/

set_option autoImplicit false

namespace EnumCodec

/-- Which of several names of a value is the canonical one. -/
inductive AliasPolicy
  /-- The least name. -/
  | lexical
  /-- The name declared first. -/
  | first
deriving DecidableEq, Repr, Inhabited

namespace AliasPolicy

/-- The name of a policy. -/
def text : AliasPolicy → String
  | lexical => "lexical"
  | first => "first"

/-- The policy with the given name. -/
def ofText? : String → Option AliasPolicy
  | "lexical" => some lexical
  | "first" => some first
  | _ => none

/-- What is said of a text that names no policy. -/
def unknownMessage (s : String) : String :=
  "unknown alias policy '" ++ s ++ "' (expected 'lexical' or 'first')"

end AliasPolicy

/-- A constant with its value, and its place among all constants of the package. -/
structure ResolvedConstant where
  name : String
  value : Int
  index : Nat
deriving DecidableEq, Repr

/-- A value, its canonical name, and its other names in the order of their declarations. -/
structure ValueEntry where
  name : String
  value : Int
  aliases : List String
deriving DecidableEq, Repr

/-- The values of a type. -/
structure ValueTable where
  typeName : String
  kind : IntKind
  entries : List ValueEntry
deriving DecidableEq, Repr

/-- The least of some names. -/
def leastName (first : String) (rest : List String) : String :=
  rest.foldl (fun best s => if s < best then s else best) first

/-- The canonical name of a value with the given names, and the other ones. -/
def electName (policy : AliasPolicy) (first : String) (rest : List String) : String × List String :=
  match policy with
  | .first => (first, rest)
  | .lexical =>
    let name := leastName first rest
    (name, (first :: rest).erase name)

/-- A value, the name of the first constant that has it, and the names of the ones after that. -/
structure ValueGroup where
  value : Int
  first : String
  rest : List String

/-- Adds the name of a further constant. -/
def ValueGroup.push (g : ValueGroup) (name : String) : ValueGroup :=
  { g with rest := g.rest ++ [name] }

/-- The entry for a value: one of its names is elected. -/
def ValueGroup.entry (policy : AliasPolicy) (g : ValueGroup) : ValueEntry :=
  let (name, aliases) := electName policy g.first g.rest
  ⟨name, g.value, aliases⟩

/-- Groups of constants, and for each value that was met, in which slot its group is. -/
structure Slots where
  slotOf : List (Int × Nat)
  groups : List ValueGroup

namespace Slots

/-- No constant was met. -/
def empty : Slots := ⟨[], []⟩

/-- Adds a constant to the group of its value; for a new value, in a new slot. -/
def add (s : Slots) (c : ResolvedConstant) : Slots :=
  match s.slotOf.lookup c.value with
  | some slot => { s with groups := s.groups.modify slot fun g => g.push c.name }
  | none => ⟨(c.value, s.groups.length) :: s.slotOf, s.groups ++ [⟨c.value, c.name, []⟩]⟩

end Slots

namespace ValueTable

/-- Constants in the order of their declarations. -/
def inOrder (constants : List ResolvedConstant) : List ResolvedConstant :=
  constants.mergeSort fun a b => a.index ≤ b.index

/-- Collects constants by value, in one pass. -/
def build (typeName : String) (kind : IntKind) (constants : List ResolvedConstant)
    (policy : AliasPolicy) : ValueTable :=
  let slots := (inOrder constants).foldl Slots.add Slots.empty
  ⟨typeName, kind, slots.groups.map (ValueGroup.entry policy)⟩

/-- The canonical name of a value. -/
def nameOf? (t : ValueTable) (value : Int) : Option String :=
  (t.entries.find? fun e => e.value == value).map (·.name)

/-- The value with the given canonical name. -/
def valueOf? (t : ValueTable) (name : String) : Option Int :=
  (t.entries.find? fun e => e.name == name).map (·.value)

/-- The canonical names with their values. -/
def pairs (t : ValueTable) : List (String × Int) := t.entries.map fun e => (e.name, e.value)

end ValueTable

end EnumCodec
