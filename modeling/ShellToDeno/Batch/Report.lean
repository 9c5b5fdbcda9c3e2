import ShellToDeno.Batch.Job

/-! Whole batches, their reports and their plans. -/
namespace ShellToDeno.Batch

structure Report where
  results : List FileResult

namespace Report

def count (r : Report) (action : Action) : Nat :=
  (r.results.filter (·.action == some action)).length

def markers (r : Report) : Nat := r.results.foldl (fun n result => n + result.markers) 0

def failed (r : Report) : List FileResult := r.results.filter (·.action == some .failed)

/-- The features that any output uses. -/
def features (r : Report) : Features :=
  r.results.foldl (fun features result => features.merge result.features) .none

end Report

/-- The line for one file; a quiet one tells of failures only. -/
def FileResult.line (colored quiet : Bool) (r : FileResult) : Text :=
  match r.action with
  | some .failed => Tint.red.paint colored "✗" ++ " " ++ r.input ++ "\n"
  | some .unchanged =>
    if quiet then []
    else Tint.gray.paint colored "=" ++ " " ++ r.input ++ " " ++
      Tint.gray.paint colored "(unchanged)" ++ "\n"
  | _ =>
    if quiet then [] else
    let line := Tint.green.paint colored "✓" ++ " " ++ r.input ++ " → " ++ r.output
    let markers := "\x7b" ++ Text.ofNat r.markers ++ " FIXME\x7d"
    (if r.markers > 0 then line ++ " " ++ Tint.yellow.paint colored markers else line) ++ "\n"

/-- The counts of a report. -/
def Report.summary (colored : Bool) (r : Report) : Text :=
  let counts := Text.ofNat (r.count .written) ++ " converted, " ++
    Text.ofNat (r.count .unchanged) ++ " unchanged, " ++ Text.ofNat (r.count .failed) ++ " failed"
  let markers := Text.ofNat r.markers ++ " FIXME markers to review"
  Tint.gray.paint colored
    (if r.markers > 0 then counts ++ ", " ++ Tint.yellow.paint colored markers else counts) ++ "\n"

/-- A line for each file and, unless it is to be quiet, the counts. -/
def Report.text (colored quiet : Bool) (r : Report) : Text :=
  r.results.flatMap (FileResult.line colored quiet) ++ if quiet then [] else r.summary colored

/-- Converts sources one after the other. The run may be cancelled before the given source; from
there on nothing is done. -/
def convertAll (o : Options) (dryRun : Bool) (cancelAt : Option Nat) :
    Nat → List Source → Files → List FileResult × Files
  | _, [], files => ([], files)
  | place, source :: rest, files =>
    if cancelAt.any (· ≤ place) then (.empty :: rest.map fun _ => .empty, files) else
    let (result, files) := Job.run o dryRun source files
    let (results, files) := convertAll o dryRun cancelAt (place + 1) rest files
    (result :: results, files)

/-- What came of a batch. -/
structure Outcome where
  report : Report
  failures : List Failure
  files : Files

def run (o : Options) (dryRun : Bool) (cancelAt : Option Nat) (paths : List Text) (files : Files) :
    Outcome :=
  let expansion := expand o files paths
  let (results, after) := convertAll o dryRun cancelAt 0 expansion.sources files
  let failures := if cancelAt.any (· < expansion.sources.length) then [.plain "context canceled"]
    else expansion.failures ++ results.filterMap FileResult.failure
  ⟨⟨results⟩, failures, after⟩

/-- What a batch would do. -/
def Report.plan (r : Report) : Plan :=
  r.results.foldl (fun plan result => plan.addFile result.step) .empty

end ShellToDeno.Batch
