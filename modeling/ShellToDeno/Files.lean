import ShellToDeno.Failure
import ShellToDeno.Path

/-! Files and directories as a tree. -/
namespace ShellToDeno

inductive FileError where
  | missing | notDirectory | isDirectory | nameTooLong | badName
  deriving DecidableEq, Repr

namespace FileError

def text : FileError → Text
  | missing => "no such file or directory"
  | notDirectory => "not a directory"
  | isDirectory => "is a directory"
  | nameTooLong => "file name too long"
  | badName => "invalid argument"

def failure (e : FileError) (operation path : Text) : Failure :=
  .plain (operation ++ " " ++ path ++ ": " ++ e.text)

end FileError

inductive Entry where
  | file (content : Text) (executable : Bool)
  /-- The entries in the byte order of their names. -/
  | directory (entries : List (Text × Entry))

namespace Entry

def isDirectory : Entry → Bool
  | .directory _ => true
  | .file _ _ => false

/-- Puts an entry under a name, in the place of the one that is there. -/
def insert (name : Text) (new : Entry) : List (Text × Entry) → List (Text × Entry)
  | [] => [(name, new)]
  | (other, entry) :: rest =>
    if other == name then (name, new) :: rest
    else if Text.lt name other then (name, new) :: (other, entry) :: rest
    else (other, entry) :: insert name new rest

/-- The entry at a location. -/
def find? : List Text → Entry → Option Entry
  | [], e => some e
  | name :: rest, .directory entries => (entries.lookup name).bind (find? rest)
  | _ :: _, .file _ _ => none

/-- Puts an entry at a location and makes the directories on the way. Nothing is put below a
file. -/
def put : List Text → Entry → Entry → Entry
  | [], _, new => new
  | name :: rest, .directory entries, new =>
    .directory (insert name (put rest ((entries.lookup name).getD (.directory [])) new) entries)
  | _ :: _, .file content executable, _ => .file content executable

/-- Removes the entry at a location with all that is below it. -/
def remove : List Text → Entry → Entry
  | [], e => e
  | [name], .directory entries => .directory (entries.filter (·.1 != name))
  | name :: rest, .directory entries =>
    .directory (entries.map fun (other, entry) =>
      if other == name then (other, remove rest entry) else (other, entry))
  | _ :: _, .file content executable => .file content executable

mutual

/-- All files below an entry, each with its location. -/
def files (location : List Text) : Entry → List (List Text × Text × Bool)
  | .file content executable => [(location, content, executable)]
  | .directory entries => filesOf location entries

def filesOf (location : List Text) : List (Text × Entry) → List (List Text × Text × Bool)
  | [] => []
  | (name, entry) :: rest => entry.files (location ++ [name]) ++ filesOf location rest

end

end Entry

/-- All files, and the directory in which relative paths start. -/
structure Files where
  root : Entry
  here : List Text

namespace Files

/-- Nothing but an empty working directory. -/
def empty (here : List Text) : Files := ⟨Entry.put here (.directory []) (.directory []), here⟩

def start (files : Files) (path : Text) : List Text := if Path.isRooted path then [] else files.here

/-- Follows the parts of a path; each must lead on from a directory. -/
def follow (files : Files) : List Text → List Text → Except FileError (List Text)
  | location, [] => .ok location
  | location, part :: rest =>
    match files.root.find? location with
    | none => .error .missing
    | some (.file _ _) => .error .notDirectory
    | some (.directory entries) =>
      if part.isEmpty || part == "." then files.follow location rest
      else if part == ".." then files.follow location.dropLast rest
      else if part.length > 255 then .error .nameTooLong
      else if (entries.lookup part).isSome then files.follow (location ++ [part]) rest
      else .error .missing

/-- The location of an existing path. -/
def locate (files : Files) (path : Text) : Except FileError (List Text) :=
  if path.isEmpty then .error .missing
  else if path.any (· == 0) then .error .badName
  else files.follow (files.start path) (Path.parts path)

/-- The entry of a path. -/
def stat (files : Files) (path : Text) : Except FileError Entry :=
  match files.locate path with
  | .error e => .error e
  | .ok location => match files.root.find? location with
    | some entry => .ok entry
    | none => .error .missing

/-- The content of a file. -/
def read (files : Files) (path : Text) : Except Failure Text :=
  match files.stat path with
  | .error e => .error (e.failure "open" path)
  | .ok (.directory _) => .error (FileError.isDirectory.failure "read" path)
  | .ok (.file content _) => .ok content

/-- The names in a directory, none if there is no such directory. -/
def names? (files : Files) (path : Text) : Option (List Text) :=
  match files.stat path with
  | .ok (.directory entries) => some (entries.map Prod.fst)
  | _ => none

/-- The location that a path spells, whether it exists or not. -/
def spelled (files : Files) (path : Text) : List Text :=
  (Path.parts path).foldl (fun (location : List Text) (part : Text) =>
    if part.isEmpty || part == "." then location
    else if part == ".." then location.dropLast
    else location ++ [part]) (files.start path)

/-- Writes a file and makes the directories on the way. -/
def write (files : Files) (path content : Text) (executable : Bool) : Files :=
  { files with root := files.root.put (files.spelled path) (.file content executable) }

/-- Makes the directories along the parts of a path, up to one that cannot be made; those before it
stay. The parts that lead to the location come first. -/
def makeAlong : List Text → List Text → List Text → Files → Files × Option Failure
  | _, _, [], files => (files, none)
  | location, before, part :: rest, files =>
    let along := before ++ [part]
    if part.isEmpty || part == "." then makeAlong location along rest files
    else if part == ".." then makeAlong location.dropLast along rest files
    else match files.root.find? (location ++ [part]) with
      | some (.directory _) => makeAlong (location ++ [part]) along rest files
      | some (.file _ _) =>
        (files, some (FileError.notDirectory.failure "mkdir" (Text.join "/" along)))
      | none =>
        if part.length > 255 then
          (files, some (FileError.nameTooLong.failure "mkdir" (Text.join "/" along)))
        else makeAlong (location ++ [part]) along rest
          { files with root := files.root.put (location ++ [part]) (.directory []) }

/-- What keeps a file from being opened for writing. One that is missing is made in a directory that
is there. -/
def openError? (files : Files) (path : Text) : Option FileError :=
  match files.stat path with
  | .ok (.file _ _) => none
  | .ok (.directory _) => some .isDirectory
  | .error .missing =>
    if path.isEmpty then some .missing else
    match files.follow (files.start path) ((Path.parts path).dropLast.concat ".") with
    | .ok _ => none
    | .error e => some e
  | .error e => some e

/-- Makes the directory of a file and writes the file. Directories that were made stay, also when
the file cannot be written. -/
def save (files : Files) (path content : Text) (executable : Bool) : Files × Option Failure :=
  let folder := Path.dir path
  match makeAlong (files.start folder) [] (Path.parts folder) files with
  | (made, some f) => (made, some f)
  | (made, none) =>
    match made.openError? path with
    | some e => (made, some (e.failure "open" path))
    | none => (made.write path content executable, none)

def makeDirectory (files : Files) (path : Text) : Files :=
  match files.stat path with
  | .ok _ => files
  | .error _ => { files with root := files.root.put (files.spelled path) (.directory []) }

def remove (files : Files) (path : Text) : Files :=
  { files with root := files.root.remove (files.spelled path) }

/-- All files of the working directory, each with its relative path, in the byte order of paths. -/
def all (files : Files) : List (Text × Text × Bool) :=
  let found := ((files.root.find? files.here).map (Entry.files [])).getD []
  (found.map fun (location, file) => (Text.join "/" location, file)).mergeSort
    fun a b => Text.le a.1 b.1

end Files

end ShellToDeno
