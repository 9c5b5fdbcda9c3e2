import ShellToDeno.Batch.Source

/-! Which changed files belong to the inputs that are watched. -/
namespace ShellToDeno.Batch

structure Watcher where
  /-- The files that were named themselves, by their cleaned paths. -/
  files : List (Text × Source)
  /-- The directories that were named. -/
  roots : List Text

namespace Watcher

def empty : Watcher := ⟨[], []⟩

/-- The directory that a path lies in, if it is one of the watched ones. -/
def under? (w : Watcher) (path : Text) : Option Text :=
  w.roots.find? fun root =>
    match Path.relative? root path with
    | some relative => relative != "." && !Path.leavesStart relative
    | none => false

/-- The input that a changed file is. -/
def source? (w : Watcher) (o : Options) (changed : Text) : Option Source :=
  let path := Path.clean changed
  match w.files.lookup path with
  | some source => some source
  | none =>
    match w.under? path with
    | some root => if !root.isEmpty && o.matches path then some ⟨path, root⟩ else none
    | none => none

/-- Adds an argument; it must exist. -/
def addPath (disk : Files) (w : Watcher) (path : Text) : Except Failure Watcher :=
  match disk.stat path with
  | .error .missing => .error (.notFound path (Suggest.paths disk path))
  | .error e => .error (.input path (some (e.failure "stat" path)))
  | .ok (.file _ _) =>
    let key := Path.clean path
    .ok { w with files := (key, ⟨path, Path.dir path⟩) :: w.files.filter (·.1 != key) }
  | .ok (.directory _) => .ok { w with roots := w.roots ++ [Path.clean path] }

/-- Starts to watch some paths. Outputs that take the place of inputs would be changes again. -/
def start (o : Options) (disk : Files) (paths : List Text) : Except Failure Watcher :=
  if o.inPlace then
    .error (.new .watch "watch mode cannot be combined with in-place conversion" none)
  else paths.foldlM (addPath disk) .empty

end Watcher

end ShellToDeno.Batch
