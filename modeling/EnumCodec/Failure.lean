import EnumCodec.Constant.Problem
import EnumCodec.Syntax.Problem

/-!
# Failures

Everything that can end a run, by its cause, with one wording for each cause (`Failure.message`).

In the generator this is `YamlenumsError`, with `is_parse_failure` and `path`.
-/

set_option autoImplicit false

namespace EnumCodec

/-- Why the operating system refuses a file operation. -/
inductive SystemError
  | notFound | notADirectory | isADirectory | tooManyLinks | nameTooLong
  | invalidText | nulInPath
  /-- A reason in words of its own. -/
  | other (text : String)
deriving DecidableEq, Repr

/-- The wording of the operating system. -/
def SystemError.message : SystemError → String
  | notFound => "No such file or directory (os error 2)"
  | notADirectory => "Not a directory (os error 20)"
  | isADirectory => "Is a directory (os error 21)"
  | tooManyLinks => "Too many levels of symbolic links (os error 40)"
  | nameTooLong => "File name too long (os error 36)"
  | invalidText => "stream did not contain valid UTF-8"
  | nulInPath => "file name contained an unexpected NUL byte"
  | other text => text

/-- A file operation that failed. -/
inductive FileProblem
  /-- A file could not be read or written. -/
  | file (error : SystemError)
  /-- A directory could not be listed. -/
  | listing (dir : String) (error : SystemError)
deriving DecidableEq, Repr

namespace FileProblem

/-- The problem, and what caused it, each with its own wording. -/
def chain : FileProblem → List String
  | file error => [error.message]
  | listing dir error =>
    ["IO error for operation on " ++ dir ++ ": " ++ error.message, error.message]

/-- The wording of a problem. -/
def message : FileProblem → String
  | file error => error.message
  | listing dir error => "IO error for operation on " ++ dir ++ ": " ++ error.message

end FileProblem

/-- Why a command makes no sense. -/
inductive UsageProblem
  | noTypes
  | emptyTypeName (raw : String)
  | severalDirectories
  /-- A reason in words of its own. -/
  | other (text : String)
deriving DecidableEq, Repr

/-- The wording of a reason. -/
def UsageProblem.message : UsageProblem → String
  | noTypes => "the flag -type must be set"
  | emptyTypeName raw => "empty type name in -type=" ++ raw
  | severalDirectories => "only one directory at a time"
  | other text => text

/-- What ends a run. -/
inductive Failure
  | usage (problem : UsageProblem)
  | io (path : String) (problem : FileProblem)
  | parse (path : String) (problem : SyntaxProblem) (line column : Option Nat)
  | mixedPackages (dir first firstFile second secondFile : String)
  | noSourceFiles (dir : String)
  | typeNotFound (typeName : String)
  | nonIntegerType (typeName underlying : String)
  | unsupported (constant : String) (cause : Unsupported)
  | overflow (constant : String) (cause : Overflow)
  | cycle (constant : String)
  | config (path text : String)
  | format (text : String)
deriving Repr

namespace Failure

/-- A file that could not be read or written. -/
def ofFile (path : String) (error : SystemError) : Failure := .io path (.file error)

/-- A problem in a source file. -/
def ofSource (e : SourceError) : Failure :=
  .parse e.file e.problem (some e.pos.line) (some e.pos.column)

/-- A constant without a value. -/
def ofEval (constant : String) : EvalProblem → Failure
  | .unsupported cause => .unsupported constant cause
  | .overflow cause => .overflow constant cause

/-- A line and a column after a path. -/
def locationText : Option Nat → Option Nat → String
  | some line, some column => ":" ++ toString line ++ ":" ++ toString column
  | some line, none => ":" ++ toString line
  | none, _ => ""

/-- The wording of a failure. -/
def message : Failure → String
  | usage problem => "usage: " ++ problem.message
  | io path problem => "I/O error at " ++ path ++ ": " ++ problem.message
  | parse path problem line column =>
    "parse error in " ++ path ++ locationText line column ++ ": " ++ problem.message
  | mixedPackages dir first firstFile second secondFile =>
    "multiple packages in " ++ dir ++ ": " ++ first ++ " (" ++ firstFile ++ ") and " ++ second ++
      " (" ++ secondFile ++ ")"
  | noSourceFiles dir => "no buildable Go source files in " ++ dir
  | typeNotFound typeName => "no values defined for type " ++ typeName
  | nonIntegerType typeName underlying =>
    "can't handle non-integer type " ++ typeName ++ " (underlying " ++ underlying ++ ")"
  | unsupported constant cause =>
    "constant " ++ constant ++ ": unsupported expression: " ++ cause.message
  | overflow constant cause => "constant " ++ constant ++ ": " ++ cause.message
  | cycle constant => "constant " ++ constant ++ " is defined in terms of itself"
  | config path text => "config error at " ++ path ++ ": " ++ text
  | format text => "format error: " ++ text

/-- Whether the failure means that there is no package to read. -/
def isParseFailure : Failure → Bool
  | parse .. | mixedPackages .. | noSourceFiles _ => true
  | _ => false

/-- The file or directory that a failure is about. -/
def path? : Failure → Option String
  | io path _ | parse path .. | config path _ => some path
  | mixedPackages dir .. | noSourceFiles dir => some dir
  | _ => none

/-- The wording of a failure, and then of what caused it. -/
def chain (f : Failure) : List String :=
  match f with
  | io _ problem => f.message :: problem.chain
  | _ => [f.message]

end Failure

end EnumCodec
