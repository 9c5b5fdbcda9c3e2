import ShellToDeno.Text.Lowercase
import ShellToDeno.Text.Numeral

/-!
Values of settings. They come from flags, from the environment and from files, so a setting may be
given as another kind of value than it is used as.
-/
namespace ShellToDeno.Settings

inductive Value where
  | null
  | flag (value : Bool)
  /-- A number as it is shown. -/
  | number (shown : Text)
  | text (value : Text)
  | list (items : List Value)
  | record (fields : List (Text × Value))

instance : Inhabited Value := ⟨.null⟩

/-- A truth value as it is written. -/
def readFlag? (t : Text) : Option Bool :=
  let yes : List Text := ["1", "t", "T", "true", "TRUE", "True"]
  let no : List Text := ["0", "f", "F", "false", "FALSE", "False"]
  if yes.contains t then some true else if no.contains t then some false else none

/-- The words of a text. -/
def words (t : Text) : List Text :=
  let step (piece : Utf8.Piece) (parts : List Text) : List Text :=
    if Utf8.blank piece then [] :: parts
    else match parts with
      | [] => [piece.bytes]
      | first :: rest => (piece.bytes ++ first) :: rest
  ((Utf8.pieces t).foldr step []).filter fun (part : Text) => !part.isEmpty

namespace Value

/-- Used as a truth value; what is none counts as false. -/
def toFlag : Value → Bool
  | .flag b => b
  | .number shown => shown != "0" && shown != "-0"
  | .text t => (readFlag? t).getD false
  | _ => false

/-- The text of a single value. -/
def toText? : Value → Option Text
  | .null => some []
  | .flag b => some (if b then "true" else "false")
  | .number shown => some shown
  | .text t => some t
  | .list _ => none
  | .record _ => none

def toText (v : Value) : Text := v.toText?.getD []

/-- Used as a list of texts. -/
def toTexts : Value → List Text
  | .list items => items.map toText
  | .text t => words t
  | .flag b => [(Value.flag b).toText]
  | .number shown => [shown]
  | .null => []
  | .record _ => []

/-- The field of a record, whatever the case of its letters; a null counts as no field. -/
def field? (key : Text) : Value → Option Value
  | .record fields =>
    match fields.find? fun (name, _) => Utf8.lowerCodes name == Utf8.lowerCodes key with
    | some (_, .null) => none
    | some (_, value) => some value
    | none => none
  | _ => none

/-- The value of a key. A key with a dot may also name a field of a record in a field. -/
def find? (key : Text) (v : Value) : Option Value :=
  match v.field? key with
  | some value => some value
  | none =>
    match Text.cut? "." key with
    | some (group, name) => (v.field? group).bind (field? name)
    | none => none

end Value

end ShellToDeno.Settings
