import EnumCodec.Syntax
import EnumCodec.Syntax.Problem

/-!
# The constants of a package

`extractConstants` lists the named constants of all files in the order of their declarations.  A
line of a group that has no values repeats the type and the values of the nearest line before it
that has some; its own place in the group is what `iota` stands for.  Blank names are left out, and
no name may be declared twice.

In the generator this is `extract_constants`; its loops over files, groups, lines and names are
`declareFiles`, `declareGroups`, `declareSpecs` and `declareNames`.
-/

set_option autoImplicit false

namespace EnumCodec

/-- A named constant. -/
structure ConstEntry where
  name : String
  file : String
  pos : Pos
  type : Option TypeName
  expr : Expr
  iota : Nat
  /-- The place among all constants of the package. -/
  index : Nat
deriving Repr

/-- The type and the values that a line of constants has, or repeats. -/
abbrev LineValues := Option TypeName × List Expr

/-- The type and the values of a line, after those of the lines before it. -/
def ConstSpec.lineValues? (spec : ConstSpec) (before : Option LineValues) : Option LineValues :=
  if spec.values.isEmpty then before else some (spec.type, spec.values)

/-- The place of the first name of a line. -/
def ConstSpec.pos (spec : ConstSpec) : Pos :=
  match spec.names with
  | [] => ⟨0, 0⟩
  | first :: _ => first.pos

/-- The type and the values of a line, if there is a value for every name. -/
def ConstSpec.checkedValues (spec : ConstSpec) (before : Option LineValues) :
    Except SyntaxError LineValues :=
  match spec.lineValues? before with
  | none => .error ⟨.missingValue, spec.pos⟩
  | some (type, values) =>
    if values.length < spec.names.length then .error ⟨.missingValue, spec.pos⟩
    else if spec.names.length < values.length then .error ⟨.extraValue, spec.pos⟩
    else .ok (type, values)

/-- Adds the constants of one line to those before it. -/
def declareNames (file : String) (type : Option TypeName) (iota : Nat) :
    List (Ident × Expr) → List ConstEntry → Except SourceError (List ConstEntry)
  | [], entries => .ok entries
  | (ident, expr) :: rest, entries =>
    if ident.isBlank then declareNames file type iota rest entries
    else
      match entries.find? (fun e => e.name == ident.name) with
      | some previous =>
        .error ⟨⟨.redeclared ident.name (some (previous.file, previous.pos)), ident.pos⟩, file⟩
      | none =>
        declareNames file type iota rest
          (entries ++ [⟨ident.name, file, ident.pos, type, expr, iota, entries.length⟩])

/-- Adds the constants of the lines of a group to those before them. -/
def declareSpecs (file : String) :
    List ConstSpec → Option LineValues → List ConstEntry → Except SourceError (List ConstEntry)
  | [], _, entries => .ok entries
  | spec :: specs, before, entries =>
    match spec.checkedValues before with
    | .error e => .error ⟨e, file⟩
    | .ok (type, values) =>
      match declareNames file type spec.iota (spec.names.zip values) entries with
      | .error e => .error e
      | .ok entries => declareSpecs file specs (some (type, values)) entries

/-- Adds the constants of groups to those before them. -/
def declareGroups (file : String) :
    List ConstDecl → List ConstEntry → Except SourceError (List ConstEntry)
  | [], entries => .ok entries
  | decl :: decls, entries =>
    match declareSpecs file decl.specs none entries with
    | .error e => .error e
    | .ok entries => declareGroups file decls entries

/-- Adds the constants of files to those before them. -/
def declareFiles : List SourceFile → List ConstEntry → Except SourceError (List ConstEntry)
  | [], entries => .ok entries
  | file :: files, entries =>
    match declareGroups file.path file.consts entries with
    | .error e => .error e
    | .ok entries => declareFiles files entries

/-- The named constants of the files of a package. -/
def extractConstants (files : List SourceFile) : Except SourceError (List ConstEntry) :=
  declareFiles files []

end EnumCodec
