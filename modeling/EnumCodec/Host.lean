import EnumCodec.Failure

/-!
# What a run can ask of its surroundings

A `Host` answers the questions of a run and carries out its orders: it looks for files, lists
directories, reads and writes texts, formats source text and takes down warnings.  Runs are written
for any host, so that they can act on a disk, on a tree of files in memory, or on fixed answers
while their questions are recorded.

In the generator these are the `SourceReader` and the `OutputSink` of a run, `gofmt` with its
`FormatOutcome`, the listing of `gather_go_files`, and `log_warn`.
-/

set_option autoImplicit false

namespace EnumCodec

/-- What stands in a directory under a name. -/
inductive EntryKind
  | file | folder | link
deriving DecidableEq, Repr

/-- A name in a directory, and what stands there. -/
structure DirEntry where
  name : String
  kind : EntryKind
deriving DecidableEq, Repr

/-- The answer of a formatter. -/
inductive FormatOutcome
  | formatted (text : String)
  /-- There is no formatter. -/
  | unavailable
  /-- The formatter refuses the text. -/
  | rejected (message : String)
deriving DecidableEq, Repr

/-- The surroundings of a run. -/
structure Host (m : Type → Type) where
  /-- Whether something stands at a path; links are followed. -/
  hasPath : String → m Bool
  /-- What stands in a directory; nothing stands in a file. -/
  list : String → m (Except SystemError (List DirEntry))
  /-- The text of the file at a path. -/
  read : String → m (Except SystemError String)
  /-- The text of a source file, which need not be the one that stands at the path. -/
  readSource : String → m (Except SystemError String)
  /-- Replaces the file at a path. -/
  write : String → String → m (Except SystemError Unit)
  format : String → m FormatOutcome
  warn : String → m Unit

/-- A step of a run: it may fail. -/
abbrev Run (m : Type → Type) := ExceptT Failure m

namespace Run

variable {m : Type → Type} [Monad m] {α : Type}

/-- A step whose outcome is known. -/
def settled (outcome : Except Failure α) : Run m α := ExceptT.mk (pure outcome)

/-- Asks something that may be refused. -/
def ask (question : m (Except SystemError α)) (blame : SystemError → Failure) : Run m α :=
  ExceptT.mk do
    match ← question with
    | .ok a => return .ok a
    | .error e => return .error (blame e)

end Run

end EnumCodec
