import ShellToDeno.Compile.Assignment

/-! Simple commands: their parts, running them through the shell, and calls of the script's own
functions. -/
namespace ShellToDeno

namespace Call

open Arguments Compile

/-- Splits a command at its name. -/
def ofNode? (context : Context) (n : Node) : Option Call :=
  let before := n.children.takeWhile fun child => child.kind != .commandName
  match n.children.drop before.length with
  | [] => none
  | nameNode :: arguments =>
    let assigned := before.filter fun child => child.kind == .variableAssignment
    let name := match nameNode.significant with
      | [only] => if only.kind == .word then Shell.unescapeWord only.text else []
      | _ => []
    some { node := n, name, nameNode, arguments, context
           assignments := assigned.flatMap fun a => Js.templateInnards a.text ++ " " }

/-- The arguments, each as its nodes. -/
def groups (call : Call) : List (List Node) := Arguments.groups call.arguments

/-- The arguments as they are written. -/
def words (call : Call) : List Text := call.groups.map textOf

def giveUp (call : Call) (reason : Text) : Compile FragmentId :=
  Compile.giveUp call.node (call.name ++ ": " ++ reason)

/-- The form that lets a command be piped and joined. -/
def externalFields (call : Call) : Fields := [(.pureCommand, .commandLine call)]

/-- Runs the command through the shell. -/
def external (c : Compiler) (call : Call) : Compile FragmentId := do
  if (← Fragment.commandLine c call).isNone then call.giveUp "arguments could not be converted"
  else new call.externalFields

/-- The value of one argument that does not multiply. -/
def value (c : Compiler) (call : Call) (group : List Node) : Compile (Option Text) := do
  match ← convertOne c call.context group with
  | some id => c.read id .value
  | none => return none

/-- The operand of a command that looks another one up. -/
def lookupOperand? (call : Call) : Option (List Node) :=
  if call.name == "command" then
    match call.groups with
    | [flag, operand] => if textOf flag == "-v" then some operand else none
    | _ => none
  else if call.name == "which" then
    match call.groups with
    | [operand] => some operand
    | _ => none
  else none

end Call

namespace Compile

/-- Calls a function that the script has defined. -/
def functionCall (c : Compiler) (call : Call) : Compile FragmentId := do
  let unified ← Arguments.unify c call.context call.arguments
  match ← c.read unified .array with
  | none => call.giveUp "arguments could not be converted"
  | some array =>
    let passed := Text.cutEnd "]" (Text.cutStart "[" array)
    let invocation := "await " ++ Js.identifier call.name ++ "(" ++ passed ++ ")"
    new ([(.condition, .text ("(" ++ invocation ++ ") == 0")),
      (.negation, .text ("(" ++ invocation ++ ") != 0")),
      (.statement, .text invocation)] ++ call.externalFields)

end Compile

end ShellToDeno
