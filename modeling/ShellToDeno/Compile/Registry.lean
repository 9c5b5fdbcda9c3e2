import ShellToDeno.Text

/-! The commands that are compiled on their own instead of being run by the shell. -/
namespace ShellToDeno

inductive Builtin where
  | alias
  | set
  | returns
  | loopControl (keyword : Text)
  | read
  | constant (command : Text) (result : Bool)
  | path (command : Text) (most : Int)
  | echo
  | exit
  | changeDirectory
  | lookup (command : Text)
  deriving DecidableEq, Repr

namespace Builtin

def name : Builtin → Text
  | .alias => "alias"
  | .set => "set"
  | .returns => "return"
  | .loopControl keyword => keyword
  | .read => "read"
  | .constant command _ => command
  | .path command _ => command
  | .echo => "echo"
  | .exit => "exit"
  | .changeDirectory => "cd"
  | .lookup command => command

def description : Builtin → Text
  | .alias => "Define an alias in the aliases table"
  | .set => "Shell options (not translated)"
  | .returns => "Return from a function with an exit status"
  | .loopControl keyword => "Loop control: " ++ keyword
  | .read => "Read a line of input into a variable"
  | .constant _ _ => "Constant exit status"
  | .path command _ => "path." ++ command ++ " on its arguments"
  | .echo => "Print arguments with console.log"
  | .exit => "Exit with Deno.exit"
  | .changeDirectory => "Change directory with Deno.chdir"
  | .lookup _ => "Command lookup as a hasCommand check"

end Builtin

/-- Commands by name; no name occurs twice. -/
structure Registry where
  builtins : List Builtin
  deriving DecidableEq, Repr

namespace Registry

def empty : Registry := ⟨[]⟩

def unregister (r : Registry) (name : Text) : Registry := ⟨r.builtins.filter (·.name != name)⟩

/-- Adds a command, in the place of one with the same name. -/
def register (r : Registry) (b : Builtin) : Registry := ⟨b :: (r.unregister b.name).builtins⟩

def find? (r : Registry) (name : Text) : Option Builtin := r.builtins.find? (·.name == name)

/-- The commands in the byte order of their names. -/
def sorted (r : Registry) : List Builtin := r.builtins.mergeSort fun a b => Text.le a.name b.name

def standard : Registry :=
  ⟨[.alias, .set, .returns, .loopControl "continue", .loopControl "break", .read,
    .constant "true" true, .constant ":" true, .constant "false" false, .path "basename" 2,
    .path "dirname" 1, .echo, .exit, .changeDirectory, .lookup "command", .lookup "which"]⟩

/-- A registry in which the given commands are left to the shell. -/
def without (r : Registry) (names : List Text) : Registry := names.foldl unregister r

end Registry

end ShellToDeno
