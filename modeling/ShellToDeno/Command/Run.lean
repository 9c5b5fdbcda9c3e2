import ShellToDeno.Batch.Report
import ShellToDeno.Batch.Watch
import ShellToDeno.Command.Help
import ShellToDeno.Settings
import ShellToDeno.Tree.Preview

/-!
What the command line does, as a function of the arguments, the input, the environment and the
files.
-/
namespace ShellToDeno.Command

structure World where
  arguments : List Text
  input : Text
  /-- Whether the input is a pipe or a file and not a terminal. -/
  piped : Bool
  /-- Whether the output is a terminal. -/
  terminal : Bool
  environment : List (Text × Text)
  home : Text
  files : Files

/-- Inputs that are to be converted again whenever they change. -/
structure Watch where
  options : Batch.Options
  watcher : Batch.Watcher
  quiet : Bool

structure Outcome where
  output : Text
  /-- What went wrong; the run has failed if there is anything. -/
  failures : List Failure
  /-- What went wrong before the watch, which goes on nevertheless. -/
  passed : List Failure
  files : Files
  colored : Bool
  watch : Option Watch

namespace World

/-- Whether colours are shown unless the settings turn them off. -/
def colored (w : World) : Bool :=
  w.terminal && ((w.environment.lookup (Text.ofString "NO_COLOR")).getD []).isEmpty

def finish (w : World) (output : Text) : Outcome := ⟨output, [], [], w.files, w.colored, none⟩

def fail (w : World) (failure : Failure) : Outcome := ⟨[], [failure], [], w.files, w.colored, none⟩

end World

/-- Whether the argument after this one may be the value of a flag. -/
def takesNext (argument : Text) : Bool :=
  let isToggle (found : Option Flag) : Bool := found.any (·.kind == .toggle)
  !argument.contains "=" &&
  ((Text.begins "--" argument && !isToggle (Flag.all.find? (·.name == argument.drop 2))) ||
   (Text.begins "-" argument && argument.length == 2 &&
    !isToggle (Flag.all.find? (·.letter == argument[1]?))))

/-- The first argument that is neither a flag nor the value of one. -/
def firstWord? : List Text → Option Text
  | [] => none
  | argument :: rest =>
    if argument == "--" then none
    else if takesNext argument then
      match rest with
      | _ :: next :: rest => firstWord? (next :: rest)
      | _ => none
    else if argument.isEmpty || Text.begins "-" argument then firstWord? rest
    else some argument

/-- Takes a word out of the arguments where it is neither a flag nor the value of one. -/
def dropWord (word : Text) : List Text → List Text
  | [] => []
  | argument :: rest =>
    if argument == "--" then argument :: rest
    else if takesNext argument then
      match rest with
      | [] => [argument]
      | value :: rest => argument :: value :: dropWord word rest
    else if argument == word then rest
    else argument :: dropWord word rest

/-- The command that some arguments call, and the arguments without its name. -/
def select (arguments : List Text) : Subcommand × List Text :=
  match firstWord? arguments with
  | none => (.convert, arguments)
  | some word =>
    match Subcommand.named.find? (·.name == word) with
    | some command => (command, dropWord word arguments)
    | none => (.convert, arguments)

/-- Converts the input. -/
def convertInput (w : World) (s : Settings) : Outcome :=
  match Program.convert s.program w.input with
  | .error f => w.fail f
  | .ok (_, code) => w.finish (Batch.Job.finishLine code)

/-- Paths with the home directory filled in; one that cannot be filled in is kept. -/
def expandPaths (home : Text) (paths : List Text) : List Text :=
  paths.map fun path => (Path.expandHome? home path).getD path

/-- Shows what would be done with some paths. -/
def planPaths (w : World) (s : Settings) (colored : Bool) (paths : List Text) : Outcome :=
  let batch := Batch.run s.batch true none paths w.files
  let plan := batch.report.plan.withContext Plan.commandKey
    (.text (Subcommand.path .convert ++ " --dry-run"))
  ⟨plan.render colored, batch.failures, [], w.files, colored, none⟩

/-- Converts some paths. -/
def convertPaths (w : World) (s : Settings) (colored : Bool) (paths : List Text) : Outcome :=
  let batch := Batch.run s.batch false none paths w.files
  ⟨batch.report.text colored s.quiet, batch.failures, [], batch.files, colored, none⟩

/-- Starts to watch some paths after they were converted. -/
def watchPaths (s : Settings) (paths : List Text) (o : Outcome) : Outcome :=
  match Batch.Watcher.start s.batch o.files paths with
  | .error f => { o with failures := [f], passed := o.failures }
  | .ok watcher =>
    let line : Text := if s.quiet then []
      else Tint.gray.paint o.colored "watching for changes, press Ctrl+C to stop" ++ "\n"
    { o with
      output := o.output ++ line, failures := [], passed := o.failures,
      watch := some ⟨s.batch, watcher, s.quiet⟩ }

def dash : Text := "-"

def runConvert (w : World) (given : Given) (s : Settings) : Outcome :=
  let colored := w.colored && !s.plain
  let outcome :=
    if given.arguments.isEmpty && !w.piped then w.finish (Subcommand.helpText .convert)
    else if given.arguments.isEmpty || given.arguments == [dash] then convertInput w s
    else
      let paths := expandPaths w.home given.arguments
      if given.isOn "dry-run" then planPaths w s colored paths
      else
        let done := convertPaths w s colored paths
        if given.isOn "watch" then watchPaths s paths done else done
  { outcome with colored }

/-- The script that is named, or else the input. -/
def readScript (w : World) (arguments : List Text) : Except Failure Text :=
  match arguments with
  | [] => .ok w.input
  | argument :: _ =>
    if argument == dash then .ok w.input else
    let path := (Path.expandHome? w.home argument).getD argument
    match w.files.stat path with
    | .error e =>
      .error (.plain ("error opening file " ++ path ++ ": " ++ (e.failure "open" path).message))
    | .ok _ => (w.files.read path).mapError fun f => .plain ("error reading input: " ++ f.message)

def runTree (w : World) (given : Given) : Outcome :=
  let program := do
    let script ← readScript w given.arguments
    Program.ofScript .standard script
  match program with
  | .error f => w.fail f
  | .ok program => w.finish (program.tree.preview ++ "\n")

/-- The builtins with what each is compiled to. -/
def listBuiltins (registry : Registry) : Text :=
  let builtins := registry.sorted
  let width := (builtins.map fun b => b.name.length).foldl max 0
  builtins.flatMap fun b => padded width b.name ++ "  " ++ b.description ++ "\n"

/-- Whether a command takes as many arguments as it was given. -/
def checkArguments (command : Subcommand) (arguments : List Text) : Except Failure Unit :=
  match command with
  | .tree =>
    if arguments.length ≤ 1 then .ok ()
    else .error (.plain ("accepts at most 1 arg(s), received " ++ Text.ofNat arguments.length))
  | .builtins | .version =>
    match arguments with
    | [] => .ok ()
    | first :: _ =>
      .error (.plain ("unknown command " ++ Text.quote first ++ " for " ++ Text.quote command.path))
  | .convert | .help => .ok ()

def version : Text := "dev"

/-- Runs a command. The help of a command comes before everything but errors in its flags. -/
def runCommand (w : World) (command : Subcommand) (given : Given) : Outcome :=
  if given.isOn "help" then w.finish command.helpText else
  match checkArguments command given.arguments with
  | .error f => w.fail f
  | .ok () =>
    match command with
    | .help => w.finish (select given.arguments).1.helpText
    | .version => w.finish (version ++ "\n")
    | _ =>
      match Settings.load w.home w.environment w.files given with
      | .error f => w.fail f
      | .ok s =>
        match command with
        | .tree => runTree w given
        | .builtins => w.finish (listBuiltins s.registry)
        | _ => runConvert w given s

/-- Runs the command that the arguments call. -/
def run (w : World) : Outcome :=
  let (command, arguments) := select w.arguments
  match readArguments command.flags arguments with
  | .error e => w.fail (.plain e.message)
  | .ok given => runCommand w command given

end ShellToDeno.Command
