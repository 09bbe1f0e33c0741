import EnumCodec.CommandLine

/-!
# The program

Runs a command on the files of the disk.  Warnings go to standard error as log lines, without the time
and without the lines of lower levels.  The program that formats source text, `gofmt`, is left out:
`disk` answers as if it were not installed, while all that is said about jobs holds for any formatter.
-/

set_option autoImplicit false

namespace EnumCodec.Program

/-- Why the operating system refused something. -/
def systemError : IO.Error → SystemError
  | .noFileOrDirectory .. => .notFound
  | .inappropriateType none 20 _ | .inappropriateType (some _) 20 _ => .notADirectory
  | .inappropriateType none 21 _ | .inappropriateType (some _) 21 _ => .isADirectory
  | e => .other (toString e)

/-- The answer to a question, or why the operating system refused it. -/
def attempt {α : Type} (action : IO α) : IO (Except SystemError α) := do
  try return .ok (← action)
  catch e => return .error (systemError e)

/-- The text of a file. -/
def readText (path : String) : IO (Except SystemError String) := do
  match ← attempt (IO.FS.readBinFile path) with
  | .error e => return .error e
  | .ok bytes =>
    match String.fromUTF8? bytes with
    | some text => return .ok text
    | none => return .error .invalidText

/-- What a node of the disk is. -/
def entryKind : IO.FS.FileType → EntryKind
  | .dir => .folder
  | .symlink => .link
  | _ => .file

/-- What stands in a directory. -/
def listFolder (path : String) : IO (List DirEntry) := do
  let place := (← IO.currentDir) / path
  if (← place.metadata).type == .dir then
    (← place.readDir).toList.mapM fun entry => do
      return ⟨entry.fileName, entryKind (← entry.path.symlinkMetadata).type⟩
  else return []

/-- The files of the disk. -/
def disk : Host IO where
  hasPath path := do ((← IO.currentDir) / path).pathExists
  list path := attempt (listFolder path)
  read := readText
  readSource := readText
  write path text := attempt (IO.FS.writeFile path text)
  format _ := return .unavailable
  warn message := IO.eprintln (Command.logLine .warning message)

end EnumCodec.Program

/-- Runs the program. -/
def main (args : List String) : IO UInt32 := do
  let outcome ← EnumCodec.Command.run EnumCodec.Program.disk (← IO.currentDir).toString args
  IO.print outcome.output
  match outcome.detail? with
  | some detail => IO.eprintln (EnumCodec.Command.logLine .error detail)
  | none => return outcome.status.toUInt32
  IO.eprint outcome.complaint
  return outcome.status.toUInt32
