import ShellToDeno.Fragment.Read
import ShellToDeno.Js.Property
import ShellToDeno.Text.Utf8

/-! What all parts of the compiler share: accesses to variables, markers and runs of statements. -/
namespace ShellToDeno.Compile

/-- Marks a text that could not be compiled. Only a value is given, so whatever needs a command of
it becomes a marker itself. -/
def fallback (text : Text) : Compile FragmentId :=
  add { Fragment.ofFields [(.value, .text (Js.marker text))] with isFallback := true }

/-- Reports why a node cannot be compiled and marks it. -/
def giveUp (n : Node) (reason : Text) : Compile FragmentId := do
  log .warn reason [("node_type", n.kind.name), ("text", n.text)]
  fallback n.text

/-- An access to a variable of the environment. -/
def env (name : Text) : Compile Text := do
  use .env
  if name == "?" then use .exitCode
  return "env" ++ Js.propertyAccess name

/-- An access to a variable of the enclosing function. -/
def localVariable (name : Text) : Compile Text := do
  use .localScope
  return "local" ++ Js.propertyAccess name

/-- The bytes between two offsets, which must fit. -/
def sliceOf (t : Text) (start stop : Int) : Compile Text :=
  match Text.slice? t start stop with
  | some piece => return piece
  | none => throw .outOfRange

/-- Compiles a node outside an argument list, where a brace expression stays as it is written. -/
def withLiteralBraces (c : Compiler) (context : Context) (n : Node) : Compile FragmentId := do
  let id ← c.compile n context
  if (← values? id).isSome then Arguments.literal n.text else return id

/-- The statements of a run of nodes, layout included. -/
def statements (c : Compiler) (context : Context) (nodes : List Node) : Compile Text := do
  let rendered ← nodes.mapM fun n => do Fragment.render c (← c.compile n context) n context
  return rendered.flatten

/-- The children of a string without its quotes. -/
def quotedParts (n : Node) : List Node := n.children.filter fun c => c.kind != .token "\""

end ShellToDeno.Compile
