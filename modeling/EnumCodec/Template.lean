import EnumCodec.Constant.ValueTable

/-!
# The generated source text

`Generated.text` writes a source file with the YAML methods of enumeration types.  A type gets a map
from names to values and its inverse, a replacement of the first map for types that can print
themselves, and the two methods.  Map entries are aligned: the values of a map start in one column.

In the generator `Generated.text` is `write_file`, `typeLines` is `write_type`, and `mapLines` is
`write_aligned`.
-/

set_option autoImplicit false

namespace EnumCodec

/-- A type and the canonical names of its values. -/
structure EnumNames where
  typeName : String
  names : List String
deriving DecidableEq, Repr

/-- A file to generate: the command that asked for it, its package, and its types. -/
structure Generated where
  command : String
  packageName : String
  types : List EnumNames
deriving DecidableEq, Repr

/-- The names of a value table. -/
def ValueTable.enumNames (t : ValueTable) : EnumNames := ⟨t.typeName, t.pairs.map (·.1)⟩

namespace Template

/-- A name between double quotes. -/
def quote (name : String) : String := "\"" ++ name ++ "\""

/-- A constant, asked to print itself. -/
def printed (name : String) : String :=
  "interface\x7b\x7d(" ++ name ++ ").(fmt.Stringer).String()"

/-- The greatest number of characters of some texts. -/
def widest (keys : List String) : Nat := keys.foldl (fun w k => max w k.length) 0

/-- The text, and blanks up to the width. -/
def padded (width : Nat) (s : String) : String :=
  s ++ String.ofList (List.replicate (width - s.length) ' ')

/-- The lines of a map literal; the values start one blank after the longest key and its colon. -/
def mapLines (indent : String) (entries : List (String × String)) : List String :=
  let width := widest (entries.map (·.1)) + 1
  entries.map fun (key, value) => indent ++ padded width (key ++ ":") ++ " " ++ value ++ ","

/-- The lines before the types. -/
def headLines (command packageName : String) : List String :=
  ["// Code generated by \"yamlenums " ++ command ++ "\"; DO NOT EDIT.",
   "",
   "package " ++ packageName,
   "",
   "import (",
   "\t\"fmt\"",
   "",
   "\t\"gopkg.in/yaml.v3\"",
   ")"]

/-- The lines of the two maps between names and values. -/
def mapsLines (t : String) (names : List String) : List String :=
  ["var (",
   "\t_" ++ t ++ "NameToValue = map[string]" ++ t ++ "\x7b"] ++
  mapLines "\t\t" (names.map fun n => (quote n, n)) ++
  ["\t\x7d",
   "",
   "\t_" ++ t ++ "ValueToName = map[" ++ t ++ "]string\x7b"] ++
  mapLines "\t\t" (names.map fun n => (n, quote n)) ++
  ["\t\x7d",
   ")"]

/-- The lines that take the names from the values themselves, if these can print themselves. -/
def initLines (t : String) (names : List String) : List String :=
  ["func init() \x7b",
   "\tvar v " ++ t,
   "\tif _, ok := interface\x7b\x7d(v).(fmt.Stringer); ok \x7b",
   "\t\t_" ++ t ++ "NameToValue = map[string]" ++ t ++ "\x7b"] ++
  mapLines "\t\t\t" (names.map fun n => (printed n, n)) ++
  ["\t\t\x7d",
   "\t\x7d",
   "\x7d"]

/-- The lines of the method that writes a value. -/
def marshalLines (t : String) : List String :=
  ["// MarshalYAML is generated so " ++ t ++ " satisfies yaml.Marshaler.",
   "func (r " ++ t ++ ") MarshalYAML() (interface\x7b\x7d, error) \x7b",
   "\tif s, ok := interface\x7b\x7d(r).(fmt.Stringer); ok \x7b",
   "\t\treturn s.String(), nil",
   "\t\x7d",
   "\ts, ok := _" ++ t ++ "ValueToName[r]",
   "\tif !ok \x7b",
   "\t\treturn nil, fmt.Errorf(\"invalid " ++ t ++ ": %d\", r)",
   "\t\x7d",
   "\treturn s, nil",
   "\x7d"]

/-- The lines of the method that reads a value. -/
def unmarshalLines (t : String) : List String :=
  ["// UnmarshalYAML is generated so " ++ t ++ " satisfies yaml.Unmarshaler.",
   "func (r *" ++ t ++ ") UnmarshalYAML(value *yaml.Node) error \x7b",
   "\tvar s string",
   "\tif err := value.Decode(&s); err != nil \x7b",
   "\t\treturn fmt.Errorf(\"" ++ t ++ " should be a string, got %s\", value.Value)",
   "\t\x7d",
   "\tv, ok := _" ++ t ++ "NameToValue[s]",
   "\tif !ok \x7b",
   "\t\treturn fmt.Errorf(\"invalid " ++ t ++ " %q\", s)",
   "\t\x7d",
   "\t*r = v",
   "\treturn nil",
   "\x7d"]

/-- The lines of a type. -/
def typeLines (e : EnumNames) : List String :=
  mapsLines e.typeName e.names ++ [""] ++ initLines e.typeName e.names ++ [""] ++
  marshalLines e.typeName ++ [""] ++ unmarshalLines e.typeName

end Template

/-- The lines of a generated file. -/
def Generated.lines (g : Generated) : List String :=
  Template.headLines g.command g.packageName ++
  g.types.flatMap fun e => "" :: Template.typeLines e

/-- The text of a generated file: every line ends with a line feed. -/
def Generated.text (g : Generated) : String :=
  String.join (g.lines.map (· ++ "\n"))

end EnumCodec
