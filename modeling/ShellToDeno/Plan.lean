import ShellToDeno.Failure
import ShellToDeno.Path
import ShellToDeno.Style
import ShellToDeno.Text.Integer

/-! What a run would do: the steps, grouped by directory, and their sums. -/
namespace ShellToDeno

inductive StepKind where
  | convert | unchanged | failed | directory
  | other (name : Text)
  deriving DecidableEq, Repr

namespace StepKind

def name : StepKind → Text
  | convert => "convert"
  | unchanged => "unchanged"
  | failed => "failed"
  | directory => "directory"
  | other name => name

def ofName (name : Text) : StepKind :=
  ([convert, unchanged, failed, directory].find? (·.name == name)).getD (other name)

end StepKind

structure Step where
  kind : StepKind
  input : Text
  output : Text
  description : Text
  markers : Int
  features : List Text
  children : List Step

instance : Inhabited Step := ⟨⟨.convert, [], [], [], 0, [], []⟩⟩

structure Summary where
  total : Nat
  convert : Nat
  unchanged : Nat
  failed : Nat
  markers : Int
  /-- Sorted and without repetitions. -/
  features : List Text
  deriving DecidableEq, Repr

namespace Summary

def empty : Summary := ⟨0, 0, 0, 0, 0, []⟩

/-- Counts one step, not its children. -/
def count (s : Summary) : StepKind → Summary
  | .convert => { s with total := s.total + 1, convert := s.convert + 1 }
  | .unchanged => { s with total := s.total + 1, unchanged := s.unchanged + 1 }
  | .failed => { s with total := s.total + 1, failed := s.failed + 1 }
  | _ => s

/-- Adds a name to sorted names. -/
def insertName (name : Text) : List Text → List Text
  | [] => [name]
  | other :: rest =>
    if name == other then other :: rest
    else if Text.lt name other then name :: other :: rest
    else other :: insertName name rest

def addFeatures (s : Summary) (features : List Text) : Summary :=
  { s with features := features.foldl (fun names name => insertName name names) s.features }

mutual

/-- Adds a step with its children. -/
def addStep (s : Summary) : Step → Summary
  | ⟨kind, _, _, _, markers, features, children⟩ =>
    let counted := s.count kind
    addSteps ({ counted with
      markers := Integer.wrap (counted.markers + markers) }.addFeatures features) children

def addSteps (s : Summary) : List Step → Summary
  | [] => s
  | step :: rest => addSteps (addStep s step) rest

end

end Summary

structure Plan where
  steps : List Step
  context : List (Text × Detail)

namespace Plan

def empty : Plan := ⟨[], []⟩

def summary (p : Plan) : Summary := Summary.empty.addSteps p.steps

def addStep (p : Plan) (step : Step) : Plan := { p with steps := p.steps ++ [step] }

/-- Puts a file into the first step of its directory, none if there is no such step. -/
def intoDirectory? (directory : Text) (file : Step) : List Step → Option (List Step)
  | [] => none
  | step :: rest =>
    if step.kind == .directory && step.description == directory then
      some ({ step with children := step.children ++ [file] } :: rest)
    else (intoDirectory? directory file rest).map (step :: ·)

/-- Adds a file under the directory of its input. -/
def addFile (p : Plan) (file : Step) : Plan :=
  let directory := Path.dir file.input
  match intoDirectory? directory file p.steps with
  | some steps => { p with steps }
  | none => p.addStep ⟨.directory, [], [], directory, 0, [], [file]⟩

def withContext (p : Plan) (key : Text) (value : Detail) : Plan :=
  { p with context := (key, value) :: p.context.filter (·.1 != key) }

/-- The line of a step without its place in the tree. -/
def stepLine (colored : Bool) (step : Step) : Text :=
  let name := Path.base step.input
  match step.kind with
  | .directory => Tint.cyan.paint colored step.description
  | .convert =>
    let line := name ++ Tint.gray.paint colored " → " ++ Tint.green.paint colored step.output
    if step.markers > 0 then
      line ++ " " ++ Tint.yellow.paint colored ("\x7b" ++ Text.ofInt step.markers ++ " FIXME\x7d")
    else line
  | .unchanged => name ++ " " ++ Tint.gray.paint colored "(unchanged)"
  | .failed => name ++ " " ++ Tint.red.paint colored step.description
  | .other _ => Tint.gray.paint colored step.description

mutual

/-- A step and its children as a tree; `lead` stands before every line. -/
def stepText (colored : Bool) (lead : Text) (last : Bool) : Step → Text
  | ⟨kind, input, output, description, markers, features, children⟩ =>
    let line := stepLine colored ⟨kind, input, output, description, markers, features, children⟩
    lead ++ (if last then "└─ " else "├─ ") ++ line ++ "\n" ++
      stepTexts colored (lead ++ if last then "   " else "│  ") children

def stepTexts (colored : Bool) (lead : Text) : List Step → Text
  | [] => []
  | step :: rest => stepText colored lead rest.isEmpty step ++ stepTexts colored lead rest

end

def summaryLine (colored : Bool) (s : Summary) : Text :=
  let line := Text.ofNat s.total ++ " files: " ++ Text.ofNat s.convert ++ " to convert, " ++
    Text.ofNat s.unchanged ++ " unchanged, " ++ Text.ofNat s.failed ++ " failed"
  if s.markers > 0 then
    line ++ ", " ++ Tint.yellow.paint colored (Text.ofInt s.markers ++ " FIXME")
  else line

/-- The key under which the context holds the name of the command. -/
def commandKey : Text := "command_name"

/-- The plan as a tree under the name of the command. -/
def render (colored : Bool) (p : Plan) : Text :=
  let name : Text := match p.context.lookup commandKey with
    | some (.text name) => name
    | _ => "bash2deno"
  Tint.heading.paint colored (name ++ ":") ++ "\n" ++ stepTexts colored [] p.steps ++
    Tint.gray.paint colored (summaryLine colored p.summary) ++ "\n"

end Plan

end ShellToDeno
