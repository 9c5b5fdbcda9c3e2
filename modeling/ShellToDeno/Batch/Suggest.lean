import ShellToDeno.Files
import ShellToDeno.Text.Distance
import ShellToDeno.Text.Lowercase

/-! Names that may have been meant by a path that does not exist. -/
namespace ShellToDeno.Suggest

def isSubsequence : List Nat → List Nat → Bool
  | [], _ => true
  | _ :: _, [] => false
  | a :: as, b :: bs => if a == b then isSubsequence as bs else isSubsequence (a :: as) bs

def encodedLength (codes : List Nat) : Nat := (codes.flatMap Utf8.ofCode).length

/-- Whether a name contains the letters of another in their order, no matter their case. -/
def contains (name wanted : Text) : Bool :=
  let inside := Utf8.lowerCodes wanted
  let outside := Utf8.lowerCodes name
  encodedLength inside ≤ encodedLength outside && isSubsequence inside outside

/-- Names by distance, those of the same distance in their order. -/
def byDistance (entries : List (Text × Nat)) : List Text :=
  (entries.mergeSort fun a b => a.2 ≤ b.2).map Prod.fst

def matching (wanted : Text) (candidates : List Text) : List Text :=
  byDistance ((candidates.filter (contains · wanted)).map fun name =>
    (name, Distance.edits (Utf8.codes wanted) (Utf8.codes name)))

/-- Names that differ in a few letters only. -/
def similar (wanted : Text) (candidates : List Text) : List Text :=
  let limit := max 2 (wanted.length / 3)
  let rated := candidates.map fun name =>
    (name, Distance.edits (Utf8.lowerCodes wanted) (Utf8.lowerCodes name))
  byDistance (rated.filter (·.2 ≤ limit))

/-- Up to three names, the closest first. -/
def best (wanted : Text) (candidates : List Text) : List Text :=
  let found := matching wanted candidates
  (if found.isEmpty then similar wanted candidates else found).take 3

/-- Paths that exist near a path that does not. -/
def paths (files : Files) (path : Text) : List Text :=
  let folder := Path.folder path
  match files.names? (if folder.isEmpty then "." else folder) with
  | none => []
  | some names => (best (Path.file path) names).map fun name => Path.join [Path.dir path, name]

end ShellToDeno.Suggest
