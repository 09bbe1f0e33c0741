import EnumCodec.Summary

/-!
# The command line

* `Command.ofArguments` reads the arguments of a command.  A long flag may be written with one dash.
* `Command.run` does what a command asks for, and gives its `Outcome`: what is printed, what is
  logged, and how the program ends.

In the generator `normalize` is `normalize_go_flags`, `packageDir` is `package_dir`, and `Command.run`
is `run` with `main`.  What is said about a flag that is refused is left out.
-/

set_option autoImplicit false

namespace EnumCodec

open Text

/-- The flags and directories of a command. -/
structure Flags where
  types : Option String
  front : Option String
  back : Option String
  policy : Option AliasPolicy
  json : Bool
  dirs : List String
deriving DecidableEq, Repr

/-- No flags and no directories. -/
def Flags.empty : Flags := ⟨none, none, none, none, false, []⟩

/-- What a command asks for. -/
inductive Command
  | generate (flags : Flags)
  | help
  | version
  /-- The arguments are none that the program knows. -/
  | rejected
deriving DecidableEq, Repr

namespace Command

/-! ## Reading arguments -/

/-- The names of the flags that may be written with one dash. -/
def longNames : List String := ["type", "prefix", "suffix", "alias", "json", "help", "version"]

/-- A text up to its first equals sign, and what follows the sign. -/
def splitEquals (text : List Char) : List Char × Option (List Char) :=
  match text.dropWhile (· != '=') with
  | [] => (text, none)
  | _ :: value => (text.takeWhile (· != '='), some value)

/-- A flag with one dash, written with two. -/
def withTwoDashes (arg : String) : String :=
  match arg.toList with
  | '-' :: c :: rest =>
    if c != '-' && longNames.contains (String.ofList (splitEquals (c :: rest)).1) then "-" ++ arg
    else arg
  | _ => arg

/-- Writes flags with two dashes, up to the argument that ends the flags. -/
def normalize : List String → List String
  | [] => []
  | "--" :: args => "--" :: args
  | arg :: args => withTwoDashes arg :: normalize args

/-- Gives a flag its value, which must be its first one. -/
def setFlag (flags : Flags) (name value : String) : Option Flags :=
  match name with
  | "type" => if flags.types.isSome then none else some { flags with types := some value }
  | "prefix" => if flags.front.isSome then none else some { flags with front := some value }
  | "suffix" => if flags.back.isSome then none else some { flags with back := some value }
  | "alias" =>
    if flags.policy.isSome then none
    else (AliasPolicy.ofText? value).map fun policy => { flags with policy := some policy }
  | _ => none

/-- Whether the flag has a value. -/
def takesValue (name : String) : Bool := ["type", "prefix", "suffix", "alias"].contains name

/-- Whether an argument cannot be the value of the flag before it. -/
def isFlagLike (arg : String) : Bool :=
  match arg.toList with
  | '-' :: _ :: _ => true
  | _ => false

/-- Reads arguments whose long flags have two dashes. -/
def read (flags : Flags) : List String → Command
  | [] => .generate flags
  | "--" :: args => .generate { flags with dirs := flags.dirs ++ args }
  | arg :: args =>
    match arg.toList with
    | '-' :: '-' :: text =>
      let (name, value) := splitEquals text
      let name := String.ofList name
      if takesValue name then
        match value, args with
        | some value, args =>
          match setFlag flags name (String.ofList value) with
          | some flags => read flags args
          | none => .rejected
        | none, [] => .rejected
        | none, value :: args =>
          if isFlagLike value then .rejected
          else
            match setFlag flags name value with
            | some flags => read flags args
            | none => .rejected
      else if value.isSome then .rejected
      else
        match name with
        | "json" => if flags.json then .rejected else read { flags with json := true } args
        | "help" => .help
        | "version" => .version
        | _ => .rejected
    | '-' :: 'h' :: _ => .help
    | '-' :: 'V' :: _ => .version
    | '-' :: _ :: _ => .rejected
    | _ => read { flags with dirs := flags.dirs ++ [arg] } args

/-- Reads the arguments of a command. -/
def ofArguments (args : List String) : Command := read Flags.empty (normalize args)

/-! ## Outcomes -/

/-- How a command ends. -/
inductive Outcome
  | printed (text : String)
  | rejected
  /-- A failure, and what caused it. -/
  | failed (message : String) (causes : List String)
deriving DecidableEq, Repr

namespace Outcome

/-- The exit status of the program. -/
def status : Outcome → Nat
  | printed _ => 0
  | failed .. => 1
  | rejected => 2

/-- What the program prints. -/
def output : Outcome → String
  | printed text => text
  | _ => ""

/-- A cause in a report; the lines after its first one are indented. -/
def causeText (lead margin cause : String) : String :=
  let lines := (pieces '\n' cause.toList).map String.ofList
  "\n" ++ lead ++ ("\n" ++ margin).intercalate lines

/-- Numbers causes from a number on. -/
def numbered : Nat → List String → String
  | _, [] => ""
  | n, cause :: causes =>
    let number := toString n
    let lead := String.ofList (List.replicate (5 - number.length) ' ') ++ number ++ ": "
    causeText lead "       " cause ++ numbered (n + 1) causes

/-- What is said about causes. -/
def causesText : List String → String
  | [] => ""
  | [cause] => "\n\nCaused by:" ++ causeText "    " "    " cause
  | causes => "\n\nCaused by:" ++ numbered 0 causes

/-- What the program says about a failure. -/
def complaint : Outcome → String
  | failed message causes => "Error: " ++ message ++ causesText causes ++ "\n"
  | _ => ""

/-- What is logged about a failure. -/
def detail? : Outcome → Option String
  | failed message causes => some (": ".intercalate (message :: causes))
  | _ => none

/-- A failure with what caused it. -/
def ofChain : List String → Outcome
  | [] => failed "" []
  | message :: causes => failed message causes

end Outcome

/-! ## Logging -/

/-- How grave a log line is. -/
inductive Level
  | warning | error
deriving DecidableEq, Repr

/-- The name of a level. -/
def Level.text : Level → String
  | warning => "WARN"
  | error => "ERROR"

/-- The part of the program that log lines come from. -/
def logTarget : String := "yamlenums_core::logging"

/-- A log line. -/
def logLine (level : Level) (detail : String) : String :=
  (Json.object
    [("level", .string level.text), ("fields", .object [("detail", .string detail)]),
     ("target", .string logTarget)]).compact

/-! ## Running -/

/-- What the program is called, and its version. -/
def versionText : String := "yamlenums 0.1.0\n"

/-- How the program is used. -/
def helpText : String :=
  "\n".intercalate
    ["Generate MarshalYAML/UnmarshalYAML methods for Go integer enums",
     "",
     "Usage: yamlenums [OPTIONS] [DIR]...",
     "",
     "Arguments:",
     "  [DIR]...  Directory holding the package [default: .]",
     "",
     "Options:",
     "      --type <TYPES>     Comma-separated list of type names; must be set",
     "      --prefix <PREFIX>  Prefix to be added to the output file",
     "      --suffix <SUFFIX>  Suffix to be added to the output file [default: _yamlenums]",
     "      --alias <ALIAS>    Name kept for values with several constants: lexical or first [default: lexical]",
     "      --json             Print a JSON summary of the generated files on stdout",
     "  -h, --help             Print help",
     "  -V, --version          Print version",
     ""]

/-- The directory of the package: the only one given, or else the working directory. -/
def packageDir (workingDir : String) (dirs : List String) : Except UsageProblem String :=
  match dirs with
  | [] => .ok (Path.join workingDir ".")
  | [dir] => .ok (Path.join workingDir dir)
  | _ => .error .severalDirectories

/-- What flags ask for; the files are to name the command line. -/
def jobOf (workingDir commandLine : String) (flags : Flags) : Except UsageProblem Job := do
  let types ← typeList (flags.types.getD "")
  let dir ← packageDir workingDir flags.dirs
  return ⟨dir, types, ⟨flags.front, flags.back, flags.policy, none⟩, commandLine⟩

/-- What is printed after a run. -/
def reportText (flags : Flags) (report : Report) : String :=
  if flags.json then report.summary.pretty ++ "\n" else ""

/-- Does what the arguments ask for. -/
def run {m : Type → Type} [Monad m] (host : Host m) (workingDir : String) (args : List String) :
    m Outcome :=
  match ofArguments args with
  | .rejected => return .rejected
  | .help => return .printed helpText
  | .version => return .printed versionText
  | .generate flags =>
    match jobOf workingDir (" ".intercalate args) flags with
    | .error problem => return .ofChain (Failure.usage problem).chain
    | .ok job => do
      match ← (job.run host).run with
      | .ok report => return .printed (reportText flags report)
      | .error failure =>
        return .ofChain (("generating code for package in " ++ job.dir) :: failure.chain)

end Command

end EnumCodec
