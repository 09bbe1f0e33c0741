import EnumCodec.Package
import EnumCodec.Settings
import EnumCodec.Template

/-!
# Generating files

`Job.run` reads the settings and the package of a directory and then writes one file for each type
that is asked for, in that order, up to the first failure.  Files that were written before a failure
stay.

In the generator `Job.run` is `generate_with`, `generateTypes` is `run`, `generateType` is
`generate_one`, and `formatted` is `format`.
-/

set_option autoImplicit false

namespace EnumCodec

/-- What is asked for: types of the package of a directory. -/
structure Job where
  dir : String
  types : List String
  /-- Settings that go before those of the directory. -/
  overrides : Settings
  /-- The command line that the files are to name. -/
  command : String
deriving DecidableEq, Repr

/-- A file that was written for a type. -/
structure WrittenFile where
  typeName : String
  path : String
  table : ValueTable
  /-- Whether the text is that of the formatter. -/
  formatted : Bool
deriving DecidableEq, Repr

/-- What a run has done. -/
structure Report where
  package : String
  dir : String
  files : List WrittenFile
deriving DecidableEq, Repr

/-- What is said when a formatter refuses the text for a type. -/
def rejectionWarning (typeName message : String) : String :=
  "invalid Go generated for " ++ typeName ++ ": " ++ message ++
    "; compile the package to analyze the error"

section

variable {m : Type → Type} [Monad m]

/-- The text for a type as the formatter gives it, if it is to be asked and gives one; and whether
it did. -/
def formatted (host : Host m) (options : Options) (typeName text : String) : m (String × Bool) :=
  if options.format then do
    match ← host.format text with
    | .formatted text => return (text, true)
    | .unavailable => return (text, false)
    | .rejected message =>
      host.warn (rejectionWarning typeName message)
      return (text, false)
  else return (text, false)

/-- Writes the file for a type (`generate_one`). -/
def generateType (host : Host m) (package : Package) (options : Options)
    (command typeName : String) : Run m WrittenFile := do
  let table ← Run.settled (package.valueTable typeName options.policy)
  let generated : Generated := ⟨command, package.name, [table.enumNames]⟩
  let (text, isFormatted) ← ExceptT.lift (formatted host options typeName generated.text)
  let path := Path.join package.dir (outputName options.front typeName options.back)
  Run.ask (host.write path text) (.ofFile path)
  return ⟨typeName, path, table, isFormatted⟩

/-- Writes the files for types, up to the first failure. -/
def generateTypes (host : Host m) (package : Package) (options : Options) (command : String) :
    List String → Run m (List WrittenFile)
  | [] => return []
  | typeName :: typeNames => do
    let file ← generateType host package options command typeName
    let files ← generateTypes host package options command typeNames
    return file :: files

namespace Job

/-- The command line that the files name: the given one, or else one that asks for the types. -/
def commandText (job : Job) : String :=
  if job.command.isEmpty then "-type=" ++ ",".intercalate job.types else job.command

/-- Does a job (`generate_with`). -/
def run (host : Host m) (job : Job) : Run m Report := do
  if job.types.isEmpty then throw (.usage .noTypes)
  let settings ← Settings.load host job.dir
  let options := (settings.getD Settings.empty).resolve job.overrides
  let package ← Package.load host job.dir
  let files ← generateTypes host package options job.commandText job.types
  return ⟨package.name, package.dir, files⟩

end Job

end

end EnumCodec
