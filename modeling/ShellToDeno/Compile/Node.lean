import ShellToDeno.Compile.Control
import ShellToDeno.Compile.Test

/-!
The compiler of a node. Each branch gives a fragment with the forms it can make; a fault in a branch
leaves a marker for that node and nothing more.
-/
namespace ShellToDeno

namespace Compile

def comment (n : Node) : Compile FragmentId := do
  if n.start == 0 && Text.begins "#!" n.text then
    use .shebang
    statement []
  else statement ("//" ++ Text.cutStart "#" n.text)

/-- Nothing at all, as a statement and inside a template. -/
def silence : Compile FragmentId := new [(.statement, .text []), (.templateInnards, .text [])]

/-- Compiles a node by its kind. -/
def branch (c : Compiler) (n : Node) (context : Context) : Compile FragmentId :=
  match n.kind with
  | .program => do statement (← statements c .program n.children)
  | .whitespace => expression n.text
  | .comment => comment n
  | .text => silence
  | .word => word n
  | .number => number n
  | .rawString => rawString n
  | .ansiString => ansiString n
  | .stringContent => stringContent n
  | .string => string c context n
  | .concatenation => concatenation c context n
  | .commandName => commandName c context n
  | .simpleExpansion => simpleExpansion n
  | .expansion => expansion c context n
  | .braceExpression => braceExpression n
  | .array => array c context n
  | .commandSubstitution => commandSubstitution c n
  | .arithmeticExpansion => arithmeticExpansion n
  | .variableAssignment => assignment c context n
  | .variableAssignments => assignments c context n
  | .declarationCommand => declaration c context n
  | .unsetCommand => unset n
  | .command => command c context n
  | .negatedCommand => negated c context n
  | .testCommand => testCommand c context n
  | .redirectedStatement => redirected c context n
  | .pipeline => pipeline c n
  | .list => list c context n
  | .ifStatement => ifStatement c n
  | .forStatement | .countedForStatement => forStatement c n
  | .whileStatement => whileStatement c n
  | .functionDefinition => functionDefinition c n
  | .compoundStatement => compound c context n
  | .token spelling =>
    if spelling == ";" then statement ";"
    else if spelling == "$(" || spelling == ")" || spelling == "`" || spelling == "\"" then silence
    else giveUp n "unsupported syntax"
  | _ => giveUp n "unsupported syntax"

/-- Compiles a node and contains its faults. -/
def node (c : Compiler) (n : Node) (context : Context) : Compile FragmentId :=
  tryCatch (branch c n context) fun fault => do
    log .error "internal error while translating node"
      [("panic", fault.message), ("node_type", n.kind.name), ("context", context.name)]
    fallback n.text

end Compile

namespace Compiler

/-- A compiler whose parts call each other no deeper than the fuel allows. -/
def ofFuel (registry : Registry) : Nat → Compiler
  | 0 => ⟨registry, fun _ _ => throw .exhausted, fun _ _ => throw .exhausted⟩
  | fuel + 1 =>
    { registry
      compile := fun n context => Compile.node (ofFuel registry fuel) n context
      readAny := fun id form => Fragment.read (ofFuel registry fuel) id form }

/-- Fuel for a text: every level of a tree takes at least one byte, and every form of a fragment is
made from others in a fixed order. -/
def fuelFor (size : Nat) : Nat := 64 * size + 4096

end Compiler

end ShellToDeno
