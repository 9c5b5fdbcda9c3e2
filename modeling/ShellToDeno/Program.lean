import ShellToDeno.Compile.Node
import ShellToDeno.Fragment.Record
import ShellToDeno.Preamble

/-!
Whole programs. A script becomes a program unless it cannot be read; whatever cannot be compiled
stays in the program as a marker.
-/
namespace ShellToDeno

structure Program where
  /-- The statements without the header. -/
  body : Text
  features : Features
  tree : Node
  /-- What was reported, in order. -/
  log : List LogEntry

/-- How programs are made. -/
structure ProgramOptions where
  /-- The header, if the program is to have one. -/
  header : Option Preamble.Options
  registry : Registry

def ProgramOptions.standard : ProgramOptions := ⟨none, .standard⟩

namespace Program

/-- The program of a tree. -/
def ofTree (registry : Registry) (tree : Node) : Program :=
  let compiler := Compiler.ofFuel registry (Compiler.fuelFor tree.text.length)
  let (outcome, state) := Compile.run .empty (Compile.statements compiler .program tree.children)
  let body := match outcome with
    | .ok text => text
    | .error _ => Js.marker tree.text
  let features := if body.contains "await $" then state.features.add .dax else state.features
  ⟨body, features, tree, state.log.reverse⟩

/-- The program of a script. -/
def ofScript (registry : Registry) (script : Text) : Except Failure Program :=
  match Node.parse script with
  | .ok tree => .ok (ofTree registry tree)
  | .error (.rejected diagnosis) => .error (.ofDiagnosis diagnosis)
  | .error (.broken fault) => .error (.broken fault)

/-- The code of a program, with its header if there is one. -/
def code (p : Program) (header : Option Preamble.Options) : Except Failure Text :=
  match header with
  | none => .ok p.body
  | some options => (Preamble.render p.features options).map fun text => text ++ "\n" ++ p.body

/-- The start of every marker. -/
def markerStart : Text := Text.cutEnd " */0" (Js.marker [])

/-- The number of markers in a piece of code. -/
def markers (code : Text) : Nat := Text.occurrences markerStart code

/-- Compiles a script to code. -/
def convert (options : ProgramOptions) (script : Text) : Except Failure (Program × Text) := do
  let program ← ofScript options.registry script
  return (program, ← program.code options.header)

end Program

namespace Compile

/-- Compiles one node, reads all of its forms and renders it. -/
def inspect (c : Compiler) (context : Context) (n : Node) : Compile (Record × Text) := do
  let id ← c.compile n context
  let record ← Record.read c id
  return (record, ← Fragment.render c id n context)

end Compile

end ShellToDeno
