import ShellToDeno.Command.Run

/-! Which files a run looks at, told from its arguments and from what is known of the files. -/
namespace ShellToDeno.Command.World

/-- The flags and the other arguments; none if they cannot be read. -/
def given (w : World) : Given :=
  let (command, arguments) := select w.arguments
  (readArguments command.flags arguments).toOption.getD .empty

/-- Whether a run may look at the input. -/
def readsInput (w : World) : Bool :=
  let (command, _) := select w.arguments
  (command == .convert || command == .tree) && w.given.arguments.head?.all (· == dash)

/-- The files in which settings may be. -/
def settingsPaths (w : World) : List Text :=
  Settings.candidates w.home ++
    (w.given.value? "config").toList.filterMap fun value => Path.expandHome? w.home value.toText

/-- The files and directories that are named. -/
def namedPaths (w : World) : List Text := expandPaths w.home w.given.arguments

/-- The inputs and outputs of a batch. -/
def batchPaths (w : World) : List Text :=
  match Settings.load w.home w.environment w.files w.given with
  | .error _ => []
  | .ok s => (Batch.expand s.batch w.files w.namedPaths).sources.flatMap fun source =>
    [source.path, s.batch.outputPath source]

end ShellToDeno.Command.World
