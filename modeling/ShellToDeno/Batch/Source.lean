import ShellToDeno.Batch.Suggest
import ShellToDeno.Program

/-! The inputs of a batch and where their outputs go. -/
namespace ShellToDeno.Batch

structure Options where
  program : ProgramOptions
  /-- Endings of the files that are picked up from directories. -/
  extensions : List Text
  /-- Whether the output takes the place of the input. -/
  inPlace : Bool
  /-- A directory for all outputs; empty for the directory of each input. -/
  outDir : Text

def defaultExtensions : List Text := [".sh", ".bash"]

def Options.endings (o : Options) : List Text :=
  if o.extensions.isEmpty then defaultExtensions else o.extensions

/-- An input file and the argument under which it was found. -/
structure Source where
  path : Text
  root : Text
  deriving DecidableEq, Repr

/-- Whether a path has one of the endings. -/
def Options.matches (o : Options) (path : Text) : Bool :=
  o.endings.any fun ending => ending.isSuffixOf path

/-- Where the output of a source is written. -/
def Options.outputPath (o : Options) (s : Source) : Text :=
  if o.inPlace then s.path else
  let beside := Path.withoutExtension s.path ++ ".js"
  if o.outDir.isEmpty then beside else
  let inside := match Path.relative? s.root beside with
    | some relative => if Path.leavesStart relative then Path.base beside else relative
    | none => Path.base beside
  Path.join [o.outDir, inside]

mutual

/-- The files of an entry that are picked up; directories whose names start with a dot are not
entered. -/
def walkEntry (o : Options) (path name : Text) : Entry → List Text
  | .file _ _ => if o.matches path then [path] else []
  | .directory entries => if Text.begins "." name then [] else walk o path entries

def walk (o : Options) (path : Text) : List (Text × Entry) → List Text
  | [] => []
  | (name, entry) :: rest =>
    walkEntry o (Path.join [path, name]) name entry ++ walk o path rest

end

/-- The sources found so far, and what went wrong, both in order. -/
structure Expansion where
  sources : List Source
  failures : List Failure

namespace Expansion

def empty : Expansion := ⟨[], []⟩

/-- Adds a source unless its path is there already. -/
def add (e : Expansion) (s : Source) : Expansion :=
  if e.sources.any (·.path == s.path) then e else { e with sources := e.sources ++ [s] }

def fail (e : Expansion) (f : Failure) : Expansion := { e with failures := e.failures ++ [f] }

/-- Adds what one argument stands for. -/
def addPath (o : Options) (files : Files) (e : Expansion) (path : Text) : Expansion :=
  match files.stat path with
  | .error .missing => e.fail (.notFound path (Suggest.paths files path))
  | .error other => e.fail (.input path (some (other.failure "stat" path)))
  | .ok (.file _ _) => e.add ⟨path, Path.dir path⟩
  | .ok (.directory entries) => (walk o path entries).foldl (fun e found => e.add ⟨found, path⟩) e

end Expansion

/-- The sources that some arguments stand for. -/
def expand (o : Options) (files : Files) (paths : List Text) : Expansion :=
  paths.foldl (Expansion.addPath o files) .empty

end ShellToDeno.Batch
