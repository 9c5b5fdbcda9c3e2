import ShellToDeno.Text

/-! Paths as texts. Nothing here looks at files: two paths are related by their spelling alone. -/
namespace ShellToDeno.Path

def isRooted (path : Text) : Bool := Text.begins "/" path

def parts (path : Text) : List Text := Text.splitOn "/" path

/-- Adds one part to a cleaned path, whose parts are given last first. -/
def cleanStep (rooted : Bool) (done : List Text) (part : Text) : List Text :=
  if part.isEmpty || part == "." then done
  else if part == ".." then
    match done with
    | [] => if rooted then [] else [part]
    | last :: before => if last == ".." then part :: done else before
  else part :: done

def cleanParts (path : Text) : List Text :=
  ((parts path).foldl (cleanStep (isRooted path)) []).reverse

/-- The shortest spelling of a path. -/
def clean (path : Text) : Text :=
  let joined := Text.join "/" (cleanParts path)
  if isRooted path then "/" ++ joined else if joined.isEmpty then "." else joined

/-- The part after the last slash. -/
def file (path : Text) : Text := (path.reverse.takeWhile (· != Ascii.slash)).reverse

/-- The part up to the last slash, with it. -/
def folder (path : Text) : Text := path.take (path.length - (file path).length)

/-- The folder of a path, cleaned. -/
def dir (path : Text) : Text := clean (folder path)

/-- The last part of a path. -/
def base (path : Text) : Text :=
  if path.isEmpty then "." else
  let trimmed := Text.dropEndWhile (· == Ascii.slash) path
  if trimmed.isEmpty then "/" else file trimmed

/-- The end of a path from the last dot of its last part. -/
def extension (path : Text) : Text :=
  let last := file path
  let ending := (last.reverse.takeWhile (· != Ascii.dot)).reverse
  if ending.length == last.length then [] else Ascii.dot :: ending

def withoutExtension (path : Text) : Text := Text.cutEnd (extension path) path

/-- Joins paths; empty ones at the start are passed over. -/
def join (paths : List Text) : Text :=
  match paths.dropWhile List.isEmpty with
  | [] => []
  | rest => clean (Text.join "/" rest)

/-- Drops what two lists have in common at their start. -/
def dropCommon : List Text → List Text → List Text × List Text
  | a :: as, b :: bs => if a == b then dropCommon as bs else (a :: as, b :: bs)
  | as, bs => (as, bs)

def parent : Text := ".."

/-- The way from one path to another, if their spelling tells it. -/
def relative? (source target : Text) : Option Text :=
  if clean source == clean target then some "."
  else if isRooted source != isRooted target then none
  else
    let (up, down) := dropCommon (cleanParts source) (cleanParts target)
    if up.head? == some parent then none
    else some (Text.join "/" (up.map (fun _ => parent) ++ down))

/-- Whether a relative path leads out of its start; names that begin with two dots count too. -/
def leavesStart (path : Text) : Bool := Text.begins ".." path

/-- A path whose leading tilde stands for a home directory. A tilde with a name after it stands for
nothing that is known. -/
def expandHome? (home path : Text) : Option Text :=
  match path with
  | 126 :: rest =>
    if rest.isEmpty || Text.isOneOf "/\\" (rest.headD 0) then some (join [home, rest]) else none
  | _ => some path

end ShellToDeno.Path
