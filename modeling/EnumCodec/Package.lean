import EnumCodec.Constant.Resolution
import EnumCodec.Host
import EnumCodec.Path
import EnumCodec.Request
import EnumCodec.Syntax.File

/-!
# Packages

The source files of one directory, read together.

* `Package.load` reads a package.  Files that are marked to be left out of every build take no part,
  and all others must belong to one package.
* `Package.meaning` says what the name of a type stands for.

In the generator `Package.load` is `parse_package_with`, `isBuildIgnored` is `is_build_ignored`,
`Package.meaning` is `resolve_type` with `resolve_local`, and `Package.valueTable` is `value_table`.
-/

set_option autoImplicit false

namespace EnumCodec

open Text

/-- The constants and types of a package. -/
structure Package where
  name : String
  dir : String
  files : List String
  entries : List ConstEntry
  /-- The types, each under a name of its own. -/
  types : List TypeSpec
deriving Repr

/-! ## Reading -/

/-- The condition in a line that says when a file is to be built. -/
def buildCondition? (line : List Char) : Option (List Char) :=
  match afterStart? "//go:build ".toList line with
  | some condition => some condition
  | none => afterStart? "// +build ".toList line

/-- Whether one of the lines before the package clause says that the file is never to be built. -/
def isIgnoredIn : List (List Char) → Bool
  | [] => false
  | line :: lines =>
    let line := trimmed line
    if "package ".toList.isPrefixOf line then false
    else
      match buildCondition? line with
      | some condition =>
        if trimmed condition == "ignore".toList then true else isIgnoredIn lines
      | none => isIgnoredIn lines

/-- Whether a file is never to be built (`is_build_ignored`). -/
def isBuildIgnored (source : String) : Bool := isIgnoredIn (pieces '\n' source.toList)

/-- The paths of the source files among the entries of a directory, in the order of their names. -/
def sourcePaths (dir : String) (entries : List DirEntry) : List String :=
  let sources := entries.filter fun e => e.kind == .file && isPackageSource e.name
  (sources.mergeSort fun a b => !decide (b.name < a.name)).map fun e => Path.join dir e.name

section

variable {m : Type → Type} [Monad m]

/-- The paths of the source files of a directory, in the order of their names. -/
def listSources (host : Host m) (dir : String) : Run m (List String) := do
  let entries ← Run.ask (host.list dir) fun e => .io dir (.listing dir e)
  return sourcePaths dir entries

/-- Reads one more file of a package, after those that were read before. -/
def addSource (dir : String) (files : List SourceFile) (path source : String) :
    Except Failure (List SourceFile) :=
  if isBuildIgnored source then .ok files
  else
    match SourceFile.ofText path source with
    | .error e => .error (.ofSource ⟨e, path⟩)
    | .ok file =>
      match files with
      | [] => .ok [file]
      | first :: _ =>
        if first.package.name = file.package.name then .ok (files ++ [file])
        else .error (.mixedPackages dir first.package.name first.path file.package.name file.path)

/-- Reads the files of a package, each once and in order. -/
def readSources (host : Host m) (dir : String) :
    List String → List SourceFile → Run m (List SourceFile)
  | [], files => return files
  | path :: paths, files => do
    let source ← Run.ask (host.readSource path) (.ofFile path)
    let files ← Run.settled (addSource dir files path source)
    readSources host dir paths files

end

/-- Adds the types of a file to those before them. -/
def declareTypes (file : String) :
    List TypeSpec → List TypeSpec → Except SourceError (List TypeSpec)
  | [], types => .ok types
  | spec :: specs, types =>
    if types.any fun t => t.name.name == spec.name.name then
      .error ⟨⟨.redeclared spec.name.name none, spec.name.pos⟩, file⟩
    else declareTypes file specs (types ++ [spec])

/-- Adds the types of files to those before them. -/
def declareFileTypes : List SourceFile → List TypeSpec → Except SourceError (List TypeSpec)
  | [], types => .ok types
  | file :: files, types =>
    match declareTypes file.path file.types types with
    | .error e => .error e
    | .ok types => declareFileTypes files types

namespace Package

/-- The package of the files of a directory. -/
def ofFiles (dir : String) (files : List SourceFile) : Except Failure Package :=
  match files with
  | [] => .error (.noSourceFiles dir)
  | first :: _ =>
    match extractConstants files with
    | .error e => .error (.ofSource e)
    | .ok entries =>
      match declareFileTypes files [] with
      | .error e => .error (.ofSource e)
      | .ok types => .ok ⟨first.package.name, dir, files.map (·.path), entries, types⟩

/-- Reads the package of a directory. -/
def load {m : Type → Type} [Monad m] (host : Host m) (dir : String) : Run m Package := do
  let paths ← listSources host dir
  let files ← readSources host dir paths []
  Run.settled (ofFiles dir files)

/-! ## Types -/

/-- What the name of a type stands for, if that takes at most the given number of steps from a
declared type to the type it is declared as. -/
def meaningWithin (types : List TypeSpec) : Nat → String → TypeMeaning
  | steps, name =>
    match types.find? fun t => t.name.name == name with
    | none => .predeclared name
    | some spec =>
      match steps with
      | 0 => .other ("invalid recursive type " ++ name)
      | steps + 1 =>
        match spec.shape with
        | .named (.own next) =>
          match meaningWithin types steps next with
          | .undeclared => .other next
          | meaning => meaning
        | .named foreign => .other foreign.text
        | .composite lead => .other lead

/-- What the name of a type stands for in the package.  A name that leads back to itself is found
out after one step more than there are types. -/
def meaning (p : Package) (name : String) : TypeMeaning :=
  meaningWithin p.types (p.types.length + 1) name

/-- The value table of a type. -/
def valueTable (p : Package) (typeName : String) (policy : AliasPolicy) :
    Except Failure ValueTable :=
  resolveValues p.entries p.meaning typeName policy

/-- The canonical names of a type with their values, where the least name of a value is the
canonical one. -/
def valuesOfType (p : Package) (typeName : String) : Except Failure (List (String × Int)) :=
  (p.valueTable typeName .lexical).map ValueTable.pairs

end Package

end EnumCodec
