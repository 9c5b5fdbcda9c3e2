import ShellToDeno.Shell.SyntaxError
import ShellToDeno.Style
import ShellToDeno.Text.Integer

/-!
Failures: what went wrong, for which reason, and the details that help to mend it.
-/
namespace ShellToDeno

inductive FailureKind where
  | inputRead | fileParse | fileNotFound | outputWrite | codeGeneration | config | watch
  | other (name : Text)
  deriving DecidableEq, Repr

namespace FailureKind

def known : List FailureKind :=
  [inputRead, fileParse, fileNotFound, outputWrite, codeGeneration, config, watch]

def name : FailureKind → Text
  | inputRead => "INPUT_READ_ERROR"
  | fileParse => "FILE_PARSE_ERROR"
  | fileNotFound => "FILE_NOT_FOUND"
  | outputWrite => "OUTPUT_WRITE_ERROR"
  | codeGeneration => "CODE_GENERATION_ERROR"
  | config => "CONFIG_ERROR"
  | watch => "WATCH_ERROR"
  | other name => name

def ofName (name : Text) : FailureKind := (known.find? (·.name == name)).getD (other name)

end FailureKind

/-- A detail of a failure. -/
inductive Detail where
  | nothing
  | flag (value : Bool)
  | number (value : Int)
  | text (value : Text)
  /-- Names to choose from. -/
  | names (values : List Text)
  | list (values : List Detail)
  | record (fields : List (Text × Detail))

instance : Inhabited Detail := ⟨.nothing⟩

inductive Failure where
  | plain (message : Text)
  /-- A script that cannot be read. -/
  | unreadable (diagnosis : Shell.Diagnosis)
  /-- The program itself broke. -/
  | broken (fault : Fault)
  | conversion (kind : FailureKind) (message : Text) (cause : Option Failure)
      (details : List (Text × Detail))

instance : Inhabited Failure := ⟨.plain []⟩

namespace Failure

/-- The text of a failure, its causes included. -/
def message : Failure → Text
  | .plain message => message
  | .unreadable diagnosis => diagnosis.render
  | .broken fault => fault.message
  | .conversion kind message none _ => kind.name ++ ": " ++ message
  | .conversion kind message (some cause) _ =>
    kind.name ++ ": " ++ message ++ " (caused by: " ++ cause.message ++ ")"

/-- A failure and its causes, the last one at the end. -/
def chain : Failure → List Failure
  | .conversion kind message (some cause) details =>
    .conversion kind message (some cause) details :: cause.chain
  | f => [f]

def kind? : Failure → Option FailureKind
  | .conversion kind _ _ _ => some kind
  | _ => none

def fault? : Failure → Option Fault
  | .broken fault => some fault
  | _ => none

/-- Whether a failure is a conversion of the given kind. -/
def isKind (f : Failure) (kind : FailureKind) : Bool := f.kind? == some kind

def detail? (f : Failure) (key : Text) : Option Detail :=
  match f with
  | .conversion _ _ _ details => details.lookup key
  | _ => none

/-- Adds a detail, in the place of one with the same key. -/
def withDetail (key : Text) (value : Detail) : Failure → Failure
  | .conversion kind message cause details =>
    .conversion kind message cause ((key, value) :: details.filter (·.1 != key))
  | f => f

def new (kind : FailureKind) (message : Text) (cause : Option Failure) : Failure :=
  .conversion kind message cause []

def input (path : Text) (cause : Option Failure) : Failure :=
  .conversion .inputRead ("failed to read '" ++ path ++ "'") cause [("path", .text path)]

def output (path : Text) (cause : Option Failure) : Failure :=
  .conversion .outputWrite ("failed to write '" ++ path ++ "'") cause [("path", .text path)]

/-- A script that cannot be read, with the place as unsigned numbers. -/
def parse (message : Text) (line column : Int) (cause : Option Failure) : Failure :=
  .conversion .fileParse message cause
    [("line", .number (line % Integer.count)), ("column", .number (column % Integer.count))]

def ofDiagnosis (d : Shell.Diagnosis) : Failure :=
  parse d.message d.line d.column (some (.unreadable d))

def notFound (path : Text) (suggestions : List Text) : Failure :=
  let details : List (Text × Detail) := [("path", .text path)]
  .conversion .fileNotFound ("path '" ++ path ++ "' does not exist") none
    (if suggestions.isEmpty then details else ("did_you_mean", .names suggestions) :: details)

/-- Names that may have been meant. -/
def suggestions (f : Failure) : List Text :=
  match f.detail? "did_you_mean" with
  | some (.names names) => names
  | _ => []

/-- One failure as it is shown, with the names that may have been meant. -/
def line (colored : Bool) (f : Failure) : Text :=
  let shown := Tint.red.paint colored "error:" ++ " " ++ f.message ++ "\n"
  if f.suggestions.isEmpty then shown
  else shown ++ "  did you mean: " ++ Text.join ", " f.suggestions ++ "\n"

def report (colored : Bool) (failures : List Failure) : Text := failures.flatMap (line colored)

end Failure

end ShellToDeno
