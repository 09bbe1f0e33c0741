import EnumCodec.Failure
import EnumCodec.Text.Blank
import EnumCodec.Text.LowerCase
import EnumCodec.Text.Pieces

/-!
# What is asked for, and where it goes

* `typeList` reads the list of the types to generate.
* `outputName` is the name of the file for a type.
* `isPackageSource` tells which files of a directory belong to a package.

In the generator these are `parse_type_list`, `output_file_name` and `is_package_source`.
-/

set_option autoImplicit false

namespace EnumCodec

open Text

/-- Adds trimmed parts to a list of names; a name that is there already is not added again. -/
def addNames (raw : String) : List (List Char) → List String → Except UsageProblem (List String)
  | [], names => .ok names
  | part :: parts, names =>
    match trimmed part with
    | [] => .error (.emptyTypeName raw)
    | c :: cs =>
      let name := String.ofList (c :: cs)
      addNames raw parts (if names.contains name then names else names ++ [name])

/-- The names in a list with commas, each once, in the order of the list. -/
def typeList (raw : String) : Except UsageProblem (List String) :=
  if (trimmed raw.toList).isEmpty then .error .noTypes
  else addNames raw (pieces ',' raw.toList) []

/-- The name of the file for a type. -/
def outputName (front typeName back : String) : String :=
  lowerCase (front ++ typeName ++ back ++ ".go")

/-- Whether a file with the name belongs to a package: tests and hidden files do not. -/
def isPackageSource (name : String) : Bool :=
  let text := name.toList
  ".go".toList.isSuffixOf text && !"_test.go".toList.isSuffixOf text &&
    !(text.head? == some '_') && !(text.head? == some '.')

end EnumCodec
