import ShellToDeno.Batch.Source
import ShellToDeno.Command.Flag
import ShellToDeno.Settings.Yaml

/-!
The settings of a run. A flag that was set comes first, then the environment, then the settings
file, and last the default.
-/
namespace ShellToDeno

structure Settings where
  header : Bool
  /-- A layout of the header of one's own. -/
  template : Text
  minimal : Bool
  inPlace : Bool
  outDir : Text
  extensions : List Text
  /-- Commands that are left to the shell. -/
  passthrough : List Text
  quiet : Bool
  /-- Whether colours are turned off. -/
  plain : Bool
  sources : Preamble.Sources
  deriving DecidableEq, Repr

namespace Settings

/-- Where settings are looked for, apart from the defaults. -/
structure Origin where
  flags : List (Text × Value)
  environment : List (Text × Text)
  file : Value

namespace Origin

/-- The name of the environment variable for a key. -/
def environmentName (key : Text) : Text :=
  let upper (b : UInt8) : UInt8 :=
    if Text.isOneOf "-." b then '_' else if 'a' ≤ b && b ≤ 'z' then b - 32 else b
  ("BASH2DENO_" : Text) ++ key.map upper

/-- The environment variable for a key, unless it is empty. -/
def inEnvironment? (o : Origin) (key : Text) : Option Text :=
  (o.environment.lookup (environmentName key)).filter fun (value : Text) => !value.isEmpty

/-- Whether a variable for the group of a key hides what a file says about the key. -/
def hidesFile (o : Origin) (key : Text) : Bool :=
  match Text.cut? "." key with
  | some (group, _) => (o.inEnvironment? group).isSome
  | none => false

/-- The value of a flag; a list of nothing but an empty text has no items. -/
def ofFlag : Value → Value
  | .list [.text []] => .list []
  | value => value

/-- The value of a key, if it is given anywhere. -/
def value? (o : Origin) (key : Text) : Option Value :=
  match o.flags.lookup key with
  | some value => some (ofFlag value)
  | none =>
    match o.inEnvironment? key with
    | some text => some (.text text)
    | none => if o.hidesFile key then none else o.file.find? key

def flag (o : Origin) (key : Text) : Bool := ((o.value? key).map Value.toFlag).getD false

def text (o : Origin) (key : Text) : Text := ((o.value? key).map Value.toText).getD []

def texts (o : Origin) (key : Text) : List Text := ((o.value? key).map Value.toTexts).getD []

end Origin

def failure (message : Text) (cause : Option Failure) (key value : Text) : Failure :=
  .conversion .config message cause [(key, .text value)]

/-- A path with the home directory filled in. -/
def expandHome (home : Text) (what path : Text) : Except Failure Text :=
  match Path.expandHome? home path with
  | some path => .ok path
  | none =>
    let cause : Failure := .plain "cannot expand user-specific home dir"
    .error (failure ("invalid " ++ what) (some cause) "path" path)

/-- Kinds of settings files by their extensions, and whether they can be read. -/
def fileKinds : List (Text × Bool) :=
  [("json", true), ("toml", false), ("yaml", true), ("yml", true), ("properties", false),
   ("props", false), ("prop", false), ("hcl", false), ("tfvars", false), ("dotenv", false),
   ("env", false), ("ini", false)]

/-- Reads a settings file. -/
def readFile (files : Files) (path : Text) : Except Failure Value :=
  let kind := (Path.extension path).drop 1
  let parsing (message : Text) : Failure := .plain ("While parsing config: " ++ message)
  match fileKinds.lookup kind with
  | none => .error (.plain ("Unsupported Config Type " ++ Text.quote kind))
  | some readable =>
    match files.read path with
    | .error f => .error f
    | .ok content =>
      if !readable then .error (parsing "decoder not found for this format")
      else (Yaml.read content).mapError fun e => parsing e.message

/-- The files in which settings are looked for if none is named. -/
def candidates (home : Text) : List Text :=
  [".bash2deno.yaml", Path.join [home, ".config", "bash2deno", "config.yaml"]]

/-- The settings file of a run, if it has one. -/
def filePath? (home : Text) (files : Files) (named : Text) : Except Failure (Option Text) :=
  if named.isEmpty then
    .ok ((candidates home).find? fun path => (files.stat path).toOption.isSome)
  else (expandHome home "config path" named).map some

/-- What the settings file of a run says. -/
def readNamed (home : Text) (files : Files) (named : Text) : Except Failure Value := do
  match ← filePath? home files named with
  | none => return .record []
  | some path =>
    match readFile files path with
    | .ok value => return value
    | .error f => throw (failure "failed to read config" (some f) "path" path)

/-- Names of commands that are no builtins cannot be left to the shell. -/
def checkPassthrough (names : List Text) : Except Failure Unit :=
  match names.find? fun name => (Registry.standard.find? name).isNone with
  | none => .ok ()
  | some name =>
    .error (failure ("passthrough command '" ++ name ++ "' is not a builtin") none "command" name)

/-- The settings of a run with some flags. -/
def load (home : Text) (environment : List (Text × Text)) (files : Files) (given : Command.Given) :
    Except Failure Settings := do
  let named := ((given.value? "config").map Value.toText).getD []
  let origin : Origin := ⟨given.flags, environment, ← readNamed home files named⟩
  let outDir ← expandHome home "out-dir" (origin.text "out-dir")
  let passthrough := origin.texts "passthrough"
  checkPassthrough passthrough
  let header := (given.value? "no-header").isNone &&
    ((origin.value? "header").map Value.toFlag).getD true
  let extensions := ((origin.value? "extensions").map Value.toTexts).getD Batch.defaultExtensions
  return {
    header
    template := origin.text "header-template"
    minimal := origin.flag "minimal-imports"
    inPlace := origin.flag "inplace"
    outDir
    extensions
    passthrough
    quiet := origin.flag "quiet"
    plain := origin.flag "no-color"
    sources := ⟨origin.text "runtime.dax-url", origin.text "runtime.path-url",
      origin.text "runtime.helpers-url"⟩ }

def registry (s : Settings) : Registry := Registry.standard.without s.passthrough

/-- How programs are made under some settings. -/
def program (s : Settings) : ProgramOptions :=
  ⟨if s.header then some ⟨s.minimal, s.sources, s.template⟩ else none, s.registry⟩

/-- How batches are run under some settings. -/
def batch (s : Settings) : Batch.Options := ⟨s.program, s.extensions, s.inPlace, s.outDir⟩

end Settings

end ShellToDeno
