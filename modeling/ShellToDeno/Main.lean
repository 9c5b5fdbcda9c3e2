import ShellToDeno.Command.Reach

/-!
The program: it reads the files that a run looks at, runs the command on them and writes what has
changed.
-/
namespace ShellToDeno.Main

open Command (World Outcome Watch)

def textOf (bytes : ByteArray) : Text := bytes.data.toList

def bytesOf (t : Text) : ByteArray := ⟨t.toArray⟩

/-- The name of a file, if it can be shown. -/
def shown? (path : Text) : Option String := String.fromUTF8? (bytesOf path)

/-- Reads the names below a path. Hidden directories are not entered. -/
partial def readNames (path : String) : IO Entry := do
  let place := (← IO.currentDir) / path
  if !(← place.isDir) then return .file [] false
  let mut entries := []
  for entry in ← place.readDir do
    let closed := entry.fileName.startsWith "." && (← entry.path.isDir)
    let below ← if closed then pure (.directory []) else readNames (path ++ "/" ++ entry.fileName)
    entries := Entry.insert entry.fileName below entries
  return .directory entries

/-- Adds what is below a path, or the names beside it if there is no such path. -/
def addNames (files : Files) (path : Text) : IO Files := do
  let place := (← IO.currentDir) / (shown? path).getD ""
  if ← place.pathExists then
    match ← (readNames ((shown? path).getD "")).toBaseIO with
    | .ok entry => return { files with root := files.root.put (files.spelled path) entry }
    | .error _ => return files
  else
    let folder := Path.dir path
    match ← ((← IO.currentDir) / (shown? folder).getD "").readDir.toBaseIO with
    | .error _ => return files
    | .ok entries => return entries.foldl (fun files entry =>
        let beside := Path.join [folder, entry.fileName]
        match files.stat beside with
        | .ok _ => files
        | .error _ => files.write beside [] false) files

/-- Adds the content of a file, if there is one. -/
def addContent (files : Files) (path : Text) : IO Files := do
  match ← (IO.FS.readBinFile ((shown? path).getD "")).toBaseIO with
  | .ok content => return files.write path (textOf content) false
  | .error _ => return files

/-- Reads all files that a run looks at. -/
def readFiles (w : World) : IO World := do
  let settings ← w.settingsPaths.foldlM addContent w.files
  let named ← w.namedPaths.foldlM addNames settings
  let contents ← w.namedPaths.foldlM addContent named
  let known := { w with files := contents }
  return { known with files := ← known.batchPaths.foldlM addContent known.files }

def writeFile (path content : Text) (executable : Bool) : IO Unit := do
  let name := (shown? path).getD ""
  IO.FS.createDirAll ((shown? (Path.dir path)).getD "")
  IO.FS.writeBinFile name (bytesOf content)
  IO.setAccessRights name
    ⟨⟨true, true, executable⟩, ⟨true, false, executable⟩, ⟨true, false, executable⟩⟩

/-- Writes the outputs that differ from what was there. -/
def writeChanges (paths : List Text) (before after : Files) : IO Unit :=
  paths.forM fun path =>
    match after.stat path, before.stat path with
    | .ok (.file new executable), .ok (.file old _) =>
      if new == old then pure () else writeFile path new executable
    | .ok (.file new executable), _ => writeFile path new executable
    | _, _ => pure ()

def print (stream : IO.FS.Stream) (t : Text) : IO Unit := do
  stream.write (bytesOf t)
  stream.flush

/-- Looks at the inputs again and again, and converts those that have changed. -/
partial def watch (start : World) (watched : Watch) (colored : Bool) (before : Files) :
    IO Unit := do
  IO.sleep 500
  let w ← readFiles start
  let mut files := w.files
  for path in w.batchPaths do
    let content (files : Files) := (files.read path).toOption
    if let some source := watched.watcher.source? watched.options path then
      if content w.files != content before then
        let (result, after) := Batch.Job.run watched.options false source files
        writeChanges [result.output] files after
        print (← IO.getStdout) (result.line colored watched.quiet)
        print (← IO.getStderr) (Failure.report colored result.failure.toList)
        files := after
  watch start watched colored files

end ShellToDeno.Main

open ShellToDeno in
def main (arguments : List String) : IO UInt32 := do
  let stdin ← IO.getStdin
  let stdout ← IO.getStdout
  let here := (← IO.currentDir).toString
  let keys := ["NO_COLOR", "BASH2DENO_HEADER", "BASH2DENO_HEADER_TEMPLATE",
    "BASH2DENO_MINIMAL_IMPORTS", "BASH2DENO_INPLACE", "BASH2DENO_OUT_DIR", "BASH2DENO_EXTENSIONS",
    "BASH2DENO_PASSTHROUGH", "BASH2DENO_QUIET", "BASH2DENO_NO_COLOR", "BASH2DENO_RUNTIME",
    "BASH2DENO_RUNTIME_DAX_URL", "BASH2DENO_RUNTIME_PATH_URL", "BASH2DENO_RUNTIME_HELPERS_URL"]
  let environment : List (Text × Text) ← keys.mapM fun name => do
    return (Text.ofString name, Text.ofString ((← IO.getEnv name).getD ""))
  let location := (Path.parts here).filter fun (part : Text) => !part.isEmpty
  let start : Command.World :=
    { arguments := arguments.map Text.ofString, input := [], piped := !(← stdin.isTty),
      terminal := ← stdout.isTty, environment, home := ((← IO.getEnv "HOME").getD ""),
      files := .empty location }
  let input ← if start.piped && start.readsInput then stdin.readBinToEnd else pure .empty
  let world ← Main.readFiles { start with input := Main.textOf input }
  let outcome := Command.run world
  Main.writeChanges world.batchPaths world.files outcome.files
  Main.print stdout outcome.output
  Main.print (← IO.getStderr) (Failure.report outcome.colored (outcome.passed ++ outcome.failures))
  match outcome.watch with
  | some watched => Main.watch start watched outcome.colored outcome.files
  | none => pure ()
  return if outcome.failures.isEmpty then 0 else 1
