import EnumCodec.Constant.ValueTable
import EnumCodec.Host
import EnumCodec.Path
import EnumCodec.Settings.Toml

/-!
# Settings

A package directory may have a file with settings.  What a command says goes before what the file
says, and that before the defaults.

In the generator `Settings.load` is `load_config`, and `Settings.resolve` is `resolve`.  What is said
about a file that cannot be read as settings is left out, but for the fact itself.
-/

set_option autoImplicit false

namespace EnumCodec

/-- Settings, as far as they are given. -/
structure Settings where
  /-- What comes before the type name in the names of files. -/
  front : Option String
  /-- What comes after the type name in the names of files. -/
  back : Option String
  policy : Option AliasPolicy
  /-- Whether the text of files is formatted. -/
  format : Option Bool
deriving DecidableEq, Repr

/-- Settings for a run. -/
structure Options where
  front : String
  back : String
  policy : AliasPolicy
  format : Bool
deriving DecidableEq, Repr

namespace Settings

/-- No settings. -/
def empty : Settings := ⟨none, none, none, none⟩

/-- The name of the file with settings. -/
def fileName : String := "yamlenums.toml"

/-- What is used where nothing is given. -/
def defaults : Options := ⟨"", "_yamlenums", .lexical, true⟩

/-- The settings for a run, where the second ones go before the first ones. -/
def resolve (file overrides : Settings) : Options :=
  { front := (overrides.front <|> file.front).getD defaults.front
    back := (overrides.back <|> file.back).getD defaults.back
    policy := (overrides.policy <|> file.policy).getD defaults.policy
    format := (overrides.format <|> file.format).getD defaults.format }

/-- The policy that a value names: its name, or a table with nothing but an empty table or array
under its name. -/
def policyOf? : Toml.Value → Option AliasPolicy
  | .string s => AliasPolicy.ofText? s
  | .table _ [(key, .table _ [])] | .table _ [(key, .emptyArray)] => AliasPolicy.ofText? key
  | _ => none

/-- Adds one setting. -/
def add (settings : Settings) (key : String) (value : Toml.Value) : Except String Settings :=
  match key, value with
  | "prefix", .string s => .ok { settings with front := some s }
  | "suffix", .string s => .ok { settings with back := some s }
  | "gofmt", .boolean b => .ok { settings with format := some b }
  | "alias", value =>
    match policyOf? value with
    | some policy => .ok { settings with policy := some policy }
    | none => .error "unknown alias policy"
  | "prefix", _ | "suffix", _ => .error ("invalid type: expected a string for " ++ key)
  | "gofmt", _ => .error ("invalid type: expected a boolean for " ++ key)
  | _, _ => .error ("unknown field " ++ key)

/-- The settings in a text. -/
def ofText (source : String) : Except String Settings :=
  match Toml.ofText? source with
  | none => .error "TOML parse error"
  | some entries => entries.foldlM (fun settings (key, value) => settings.add key value) empty

/-- The settings of a directory, if it has a file with settings. -/
def load {m : Type → Type} [Monad m] (host : Host m) (dir : String) :
    Run m (Option Settings) := do
  let path := Path.join dir fileName
  if ← host.hasPath path then
    let source ← Run.ask (host.read path) (.ofFile path)
    match ofText source with
    | .ok settings => return some settings
    | .error text => throw (.config path text)
  else return none

end Settings

end EnumCodec
