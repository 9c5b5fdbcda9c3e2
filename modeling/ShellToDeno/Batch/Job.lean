import ShellToDeno.Batch.Source
import ShellToDeno.Plan

/-!
The work on one file. It goes through three steps that look at the files: reading the input,
comparing with the output that is there, and writing. Steps of several jobs can be interleaved.
-/
namespace ShellToDeno.Batch

inductive Action where
  | written | unchanged | planned | failed
  deriving DecidableEq, Repr

def Action.name : Action → Text
  | .written => "written"
  | .unchanged => "unchanged"
  | .planned => "planned"
  | .failed => "failed"

/-- What came of one file; a file that was never looked at has no action. -/
structure FileResult where
  input : Text
  output : Text
  action : Option Action
  markers : Nat
  features : Features
  failure : Option Failure

namespace FileResult

def empty : FileResult := ⟨[], [], none, 0, .none, none⟩

def fail (r : FileResult) (f : Failure) : FileResult :=
  { r with action := some .failed, failure := some f }

/-- The result as a step of a plan. -/
def step (r : FileResult) : Step :=
  let kind : StepKind := match r.action with
    | some .failed => .failed
    | some .unchanged => .unchanged
    | _ => .convert
  let description := match r.action, r.failure with
    | some .failed, some f => f.message
    | _, _ => []
  ⟨kind, r.input, r.output, description, r.markers, r.features.names, []⟩

end FileResult

/-- How far the work on a file has come. -/
inductive Job where
  | waiting (source : Source)
  | compiled (result : FileResult) (code : Text)
  | differing (result : FileResult) (code : Text)
  | finished (result : FileResult)

namespace Job

/-- Code ends with a newline. -/
def finishLine (code : Text) : Text :=
  if Text.cutEnd? "\n" code |>.isSome then code else code ++ "\n"

/-- Reads and compiles the input. -/
def compile (o : Options) (source : Source) (files : Files) : Job :=
  let result : FileResult := { FileResult.empty with
    input := source.path, output := o.outputPath source }
  match files.read source.path with
  | .error f => .finished (result.fail (.input source.path (some f)))
  | .ok script =>
    match Program.convert o.program script with
    | .error f =>
      let message := "failed to translate '" ++ source.path ++ "'"
      .finished (result.fail (.conversion .fileParse message (some f)
        [("path", .text source.path)]))
    | .ok (program, code) =>
      .compiled
        { result with features := program.features, markers := Program.markers program.body }
        (finishLine code)

/-- Looks at the output that is there. -/
def compare (dryRun : Bool) (result : FileResult) (code : Text) (files : Files) : Job :=
  let differ : Job :=
    if dryRun then .finished { result with action := some .planned } else .differing result code
  match files.stat result.output with
  | .error .missing => differ
  | .error e =>
    .finished (result.fail (.output result.output (some (e.failure "open" result.output))))
  | .ok (.directory _) =>
    let f := FileError.isDirectory.failure "read" result.output
    .finished (result.fail (.output result.output (some f)))
  | .ok (.file content _) =>
    if content == code then .finished { result with action := some .unchanged } else differ

/-- Takes one step. Code that starts with a shebang becomes executable. -/
def step (o : Options) (dryRun : Bool) (files : Files) : Job → Job × Files
  | .waiting source => (compile o source files, files)
  | .compiled result code => (compare dryRun result code files, files)
  | .differing result code =>
    match files.save result.output code (Text.begins "#!" code) with
    | (files, some f) => (.finished (result.fail (.output result.output (some f))), files)
    | (files, none) => (.finished { result with action := some .written }, files)
  | .finished result => (.finished result, files)

def isFinished : Job → Bool
  | .finished _ => true
  | _ => false

def result : Job → FileResult
  | .finished result => result
  | _ => .empty

/-- Does all the work on one file. -/
def run (o : Options) (dryRun : Bool) (source : Source) (files : Files) : FileResult × Files :=
  let (read, files) := step o dryRun files (.waiting source)
  let (compared, files) := step o dryRun files read
  let (done, files) := step o dryRun files compared
  (done.result, files)

end Job

end ShellToDeno.Batch
