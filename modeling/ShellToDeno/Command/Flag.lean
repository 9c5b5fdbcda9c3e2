import ShellToDeno.Settings.Value
import ShellToDeno.Text.Quoted
import ShellToDeno.Text.Separated

/-!
The flags of the command line. Flags and other arguments may come in any order; after `--` no
argument is a flag.
-/
namespace ShellToDeno.Command

open Settings (Value)

inductive FlagKind where
  | toggle | text | number | list
  deriving DecidableEq, Repr

structure Flag where
  name : Text
  letter : Option UInt8
  kind : FlagKind
  /-- Whether every command takes it. -/
  shared : Bool
  /-- What it does. -/
  usage : Text
  deriving DecidableEq, Repr

namespace Flag

/-- The flags in the order of their names, the one for help left out. -/
def all : List Flag :=
  [⟨"config", none, .text, true,
      "Config file (default .bash2deno.yaml or ~/.config/bash2deno/config.yaml)"⟩,
   ⟨"debug", none, .toggle, true, "Enable debug output"⟩,
   ⟨"dry-run", none, .toggle, false, "Show what would be converted without writing"⟩,
   ⟨"extensions", none, .list, false,
      "File extensions picked up from directories (default [.sh,.bash])"⟩,
   ⟨"inplace", some 'i', .toggle, false, "Overwrite each input with its translation"⟩,
   ⟨"jobs", some 'j', .number, false, "Files converted concurrently (default: number of CPUs)"⟩,
   ⟨"minimal-imports", none, .toggle, false, "Only import the runtime helpers the output uses"⟩,
   ⟨"no-color", none, .toggle, true, "Disable colored output"⟩,
   ⟨"no-header", none, .toggle, false, "Leave out the shebang, imports and helper bindings"⟩,
   ⟨"out-dir", some 'o', .text, false, "Write translations under this directory"⟩,
   ⟨"passthrough", none, .list, true,
      "Builtins to run through dax instead of translating natively"⟩,
   ⟨"quiet", some 'q', .toggle, true, "Only report errors"⟩,
   ⟨"watch", some 'w', .toggle, false, "Reconvert inputs when they change"⟩]

/-- The flag that asks for help with a command. -/
def help (command : Text) : Flag := ⟨"help", some 'h', .toggle, false, "help for " ++ command⟩

/-- A flag as messages name it. -/
def shown (f : Flag) : Text :=
  match f.letter with
  | some letter => "-" ++ [letter] ++ ", --" ++ f.name
  | none => "--" ++ f.name

end Flag

/-- Why a value does not fit a flag. -/
inductive ValueProblem where
  | flag (value : Text)
  | number (value : Text) (problem : Numeral.Problem)
  | list (problem : Separated.Problem)
  deriving DecidableEq, Repr

def ValueProblem.message : ValueProblem → Text
  | .flag value => "strconv.ParseBool: parsing " ++ Text.quote value ++ ": invalid syntax"
  | .number value .malformed =>
    "strconv.ParseInt: parsing " ++ Text.quote value ++ ": invalid syntax"
  | .number value .outOfRange =>
    "strconv.ParseInt: parsing " ++ Text.quote value ++ ": value out of range"
  | .list problem => problem.message

inductive FlagError where
  /-- Two dashes without a name after them. -/
  | badSpelling (argument : Text)
  | unknown (name : Text)
  | unknownLetter (letters : Text)
  | needsValue (argument : Text)
  | letterNeedsValue (letters : Text)
  | badValue (flag : Flag) (value : Text) (problem : ValueProblem)
  deriving DecidableEq, Repr

namespace FlagError

/-- A byte in single quotes, shown as the character with its number. -/
def quoteByte (b : UInt8) : Text :=
  let c := Char.ofNat b.toNat
  let shown : Text := if c == '\'' then "\\'" else if c == '"' then "\"" else Text.quoteChar c
  "'" ++ shown ++ "'"

def message : FlagError → Text
  | .badSpelling argument => "bad flag syntax: " ++ argument
  | .unknown name => "unknown flag: --" ++ name
  | .unknownLetter letters =>
    "unknown shorthand flag: " ++ quoteByte (letters.headD 0) ++ " in -" ++ letters
  | .needsValue argument => "flag needs an argument: " ++ argument
  | .letterNeedsValue letters =>
    "flag needs an argument: " ++ quoteByte (letters.headD 0) ++ " in -" ++ letters
  | .badValue flag value problem =>
    "invalid argument " ++ Text.quote value ++ " for " ++ Text.quote flag.shown ++ " flag: " ++
      problem.message

end FlagError

/-- Arguments as they were read. -/
structure Given where
  /-- The flags that were set, each once. -/
  flags : List (Text × Value)
  /-- The other arguments in order. -/
  arguments : List Text

namespace Given

def empty : Given := ⟨[], []⟩

def value? (g : Given) (name : Text) : Option Value := g.flags.lookup name

/-- Whether a toggle was switched on. -/
def isOn (g : Given) (name : Text) : Bool := ((g.value? name).map Value.toFlag).getD false

/-- The items of a list that was given before. -/
def itemsBefore (g : Given) (flag : Flag) : List Value :=
  match g.value? flag.name with
  | some (.list items) => items
  | _ => []

/-- Reads the value of a flag. A list that is given again is continued. -/
def read (g : Given) (flag : Flag) (value : Text) : Except ValueProblem Value :=
  match flag.kind with
  | .text => .ok (.text value)
  | .toggle =>
    match Settings.readFlag? value with
    | some b => .ok (.flag b)
    | none => .error (.flag value)
  | .number =>
    match Numeral.read value with
    | .ok n => .ok (.number (Text.ofInt n))
    | .error problem => .error (.number value problem)
  | .list =>
    if value.isEmpty then .ok (.list (g.itemsBefore flag)) else
    match Separated.read value with
    | .ok items => .ok (.list (g.itemsBefore flag ++ items.map Value.text))
    | .error problem => .error (.list problem)

/-- Sets a flag. -/
def set (g : Given) (flag : Flag) (value : Text) : Except FlagError Given :=
  match g.read flag value with
  | .ok v => .ok { g with flags := (flag.name, v) :: g.flags.filter (·.1 != flag.name) }
  | .error problem => .error (.badValue flag value problem)

def add (g : Given) (argument : Text) : Given := { g with arguments := g.arguments ++ [argument] }

end Given

/-- A flag that waits for its value in the next argument, and what to say if there is none. -/
structure Awaiting where
  flag : Flag
  otherwise : FlagError

/-- How far arguments have been read. -/
structure Reading where
  given : Given
  awaiting : Option Awaiting
  /-- Whether `--` has been passed. -/
  ended : Bool

namespace Reading

def start : Reading := ⟨.empty, none, false⟩

def set (r : Reading) (flag : Flag) (value : Text) : Except FlagError Reading := do
  return { r with given := ← r.given.set flag value, awaiting := none }

/-- Reads an argument that starts with two dashes. -/
def long (known : List Flag) (r : Reading) (argument : Text) : Except FlagError Reading :=
  let written := argument.drop 2
  if written.isEmpty || Text.isOneOf "-=" (written.headD 0) then .error (.badSpelling argument) else
  let (name, value) := match Text.cut? "=" written with
    | some (name, value) => (name, some value)
    | none => (written, none)
  match known.find? (·.name == name) with
  | none => .error (.unknown name)
  | some flag =>
    match value with
    | some value => r.set flag value
    | none =>
      if flag.kind == .toggle then r.set flag "true"
      else .ok { r with awaiting := some ⟨flag, .needsValue argument⟩ }

/-- Reads the letters after one dash. The value of a flag may follow its letter at once. -/
def short (known : List Flag) (r : Reading) : Text → Except FlagError Reading
  | [] => .ok r
  | letter :: rest =>
    if Text.begins "test." (letter :: rest) then .ok r else
    match known.find? (·.letter == some letter) with
    | none => .error (.unknownLetter (letter :: rest))
    | some flag =>
      if Text.begins "=" rest && rest.length > 1 then r.set flag (rest.drop 1)
      else if flag.kind == .toggle then
        match r.set flag "true" with
        | .ok r => short known r rest
        | .error e => .error e
      else if rest.isEmpty then .ok { r with awaiting := some ⟨flag, .letterNeedsValue [letter]⟩ }
      else r.set flag rest

/-- Reads one argument. -/
def next (known : List Flag) (r : Reading) (argument : Text) : Except FlagError Reading :=
  match r.awaiting with
  | some awaiting => r.set awaiting.flag argument
  | none =>
    if r.ended then .ok { r with given := r.given.add argument }
    else if argument == "--" then .ok { r with ended := true }
    else if Text.begins "--" argument then r.long known argument
    else if Text.begins "-" argument && argument.length > 1 then r.short known (argument.drop 1)
    else .ok { r with given := r.given.add argument }

end Reading

/-- Reads all arguments of a command that knows some flags. -/
def readArguments (known : List Flag) (arguments : List Text) : Except FlagError Given := do
  let reading ← arguments.foldlM (Reading.next known) .start
  match reading.awaiting with
  | some awaiting => throw awaiting.otherwise
  | none => return reading.given

end ShellToDeno.Command
