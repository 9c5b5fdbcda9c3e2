import ShellToDeno.Text

/-! What a program uses of its runtime; the header provides just that. -/
namespace ShellToDeno

inductive Feature where
  | shebang | dax | env | localScope | aliases | stdout | stderr | overwrite | append | hasCommand
  | fs | path | makeScope | iterateOver | exitCode
  deriving DecidableEq, Repr

namespace Feature

/-- All features in the order in which they are listed. -/
def names : List (Feature × String) :=
  [(shebang, "shebang"), (dax, "dax"), (env, "env"), (localScope, "local"), (aliases, "aliases"),
   (stdout, "stdout"), (stderr, "stderr"), (overwrite, "overwrite"), (append, "append"),
   (hasCommand, "hasCommand"), (fs, "fs"), (path, "path"), (makeScope, "makeScope"),
   (iterateOver, "iterateOver"), (exitCode, "exitCode")]

def all : List Feature := names.map Prod.fst

def name (f : Feature) : Text := ((names.lookup f).map Text.ofString).getD []

def ofName? (name : Text) : Option Feature := all.find? fun f => f.name == name

end Feature

/-- A set of features, kept in the order in which they are listed. -/
structure Features where
  used : List Feature
  deriving DecidableEq, Repr

namespace Features

def none : Features := ⟨[]⟩

def has (fs : Features) (f : Feature) : Bool := fs.used.contains f

def ofUsed (used : List Feature) : Features := ⟨Feature.all.filter used.contains⟩

def add (fs : Features) (f : Feature) : Features := ofUsed (f :: fs.used)

def merge (a b : Features) : Features := ofUsed (a.used ++ b.used)

def names (fs : Features) : List Text := fs.used.map Feature.name

def ofNames (names : List Text) : Features := ofUsed (names.filterMap Feature.ofName?)

end Features

end ShellToDeno
