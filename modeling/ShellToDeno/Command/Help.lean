import ShellToDeno.Command.Flag

/-! The commands of the command line and their help. -/
namespace ShellToDeno.Command

inductive Subcommand where
  | convert | builtins | help | tree | version
  deriving DecidableEq, Repr

namespace Subcommand

/-- The name of the whole program. -/
def program : Text := "bash2deno"

/-- The commands that are chosen by name, in the order of their names. -/
def named : List Subcommand := [builtins, help, tree, version]

def name : Subcommand → Text
  | convert => program
  | builtins => "builtins"
  | help => "help"
  | tree => "tree"
  | version => "version"

/-- A command as it is called. -/
def path : Subcommand → Text
  | convert => program
  | c => program ++ " " ++ c.name

/-- How a command is used. -/
def use : Subcommand → Text
  | convert => path convert ++ " [paths...]"
  | help => path help ++ " [command]"
  | tree => path tree ++ " [file]"
  | c => c.path

def brief : Subcommand → Text
  | convert => "Translate bash scripts into Deno programs that run commands through dax"
  | builtins => "List the commands translated natively"
  | help => "Help about any command"
  | tree => "Print the parse tree of a bash script"
  | version => "Print the version"

def about : Subcommand → Text
  | convert =>
    "Translate bash scripts into Deno programs that run commands through dax.\n\n" ++
    "Files are written beside their input with a .js extension. Directories are\n" ++
    "walked for .sh and .bash files. With no paths and piped input, stdin is\n" ++
    "translated to stdout. Constructs that cannot be translated are left as\n" ++
    "/* FIXME: ... */ markers in the output."
  | builtins =>
    "List the commands translated into JavaScript instead of being run through dax. " ++
    "Commands named by --passthrough are left out."
  | help =>
    "Help provides help for any command in the application.\n" ++
    "Simply type bash2deno help [path to command] for full details."
  | tree =>
    "Print the parse tree the translator works from, as XML. Reads stdin when no file is given."
  | version => brief version

def examples : Text :=
  "  bash2deno install.sh\n  bash2deno --inplace ./scripts\n  cat build.sh | bash2deno > build.js"

/-- The flags of a command itself. -/
def ownFlags : Subcommand → List Flag
  | convert =>
    let (before, after) := Flag.all.span fun f => Text.lt f.name "help"
    before ++ Flag.help program :: after
  | c => [Flag.help c.name]

/-- The flags that a command shares with all others. -/
def sharedFlags : Subcommand → List Flag
  | convert => []
  | _ => Flag.all.filter Flag.shared

def flags (c : Subcommand) : List Flag := c.ownFlags ++ c.sharedFlags

end Subcommand

/-- Fills a text up with blanks. -/
def padded (width : Nat) (t : Text) : Text := t ++ Text.spaces (width - t.length)

/-- A flag and the kind of its value. -/
def Flag.heading (f : Flag) : Text :=
  let kind : Text := match f.kind with
    | .toggle => []
    | .text => " string"
    | .number => " int"
    | .list => " strings"
  (if f.letter.isSome then "  " ++ f.shown else "      " ++ f.shown) ++ kind

/-- A line for each flag, with what it does in one column. -/
def flagLines (flags : List Flag) : Text :=
  let width := (flags.map fun f => f.heading.length).foldl max 0
  Text.join "\n" (flags.map fun f => padded (width + 3) f.heading ++ f.usage)

namespace Subcommand

/-- The commands that can be chosen, each with what it does. -/
def overview : Text :=
  Text.join "\n" (named.map fun c => ("  " : Text) ++ padded 11 c.name ++ " " ++ c.brief)

/-- A part of the help with its title. -/
def part (title body : Text) : Text := "\n\n" ++ title ++ ":\n" ++ body

/-- The help of a command. -/
def helpText (c : Subcommand) : Text :=
  let usage := ("  " : Text) ++ c.use ++ " [flags]"
  if c == convert then
    c.about ++ part "Usage" (usage ++ "\n  " ++ c.path ++ " [command]") ++
      part "Examples" examples ++
      part "Available Commands" overview ++ part "Flags" (flagLines c.ownFlags) ++
      "\n\nUse \"" ++ c.path ++ " [command] --help\" for more information about a command.\n"
  else
    c.about ++ part "Usage" usage ++ part "Flags" (flagLines c.ownFlags) ++
      part "Global Flags" (flagLines c.sharedFlags) ++ "\n"

end Subcommand

end ShellToDeno.Command
