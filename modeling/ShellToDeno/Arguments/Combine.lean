import ShellToDeno.Arguments.Groups
import ShellToDeno.Fragment.Basic
import ShellToDeno.Dax.Quoting
import ShellToDeno.Js.Template

/-!
From the parts of an argument to fragments. A brace expression makes one argument into several;
then the parts of each are joined into one fragment.
-/
namespace ShellToDeno.Arguments

open Compile

/-- The forms of a literal text whose template spelling is given. -/
def literalFields (innards : Text) : Fields :=
  [(.quotedInnards, .text (Dax.singleQuoteInnards innards)),
   (.templateInnards, .text innards),
   (.value, .text (Js.template innards))]

/-- A plain text, such as one value of a brace expression. -/
def literal (s : Text) : Compile FragmentId :=
  let fields := literalFields (Js.templateInnards s)
  new (if Dax.isBare s then (.argument, .text s) :: fields else fields)

/-- Puts each value in turn at one place of each combination. -/
def expandAt (place : Nat) (values : List Text) (combinations : List (List FragmentId)) :
    Compile (List (List FragmentId)) :=
  combinations.flatMapM fun combination =>
    values.mapM fun value => return combination.set place (← literal value)

def expandFrom (place : Nat) :
    List FragmentId → List (List FragmentId) → Compile (List (List FragmentId))
  | [], combinations => return combinations
  | part :: rest, combinations => do
    match ← values? part with
    | none => expandFrom (place + 1) rest combinations
    | some values => expandFrom (place + 1) rest (← expandAt place values combinations)

/-- All combinations of the values of the brace expressions among some parts. -/
def expand (parts : List FragmentId) : Compile (List (List FragmentId)) :=
  expandFrom 0 parts [parts]

/-- Whether all parts have a form. -/
def allHave (c : Compiler) (form : Form) : List FragmentId → Compile Bool
  | [] => return true
  | part :: rest => do
    if ← c.has part form then allHave c form rest else return false

/-- Forms that are joined as they are when all parts have them. -/
def sharedForms : List (Form × (List FragmentId → Recipe)) :=
  [(.argument, .joinedArgument), (.quotedInnards, .joinedQuoted),
   (.templateInnards, .joinedTemplate)]

/-- One fragment for the parts of one argument. -/
def combine (c : Compiler) : List FragmentId → Compile FragmentId
  | [only] => return only
  | parts => do
    let fields ← sharedForms.mapM fun (form, pieced) => do
      if ← allHave c form parts then return (form, Recipe.joined form parts)
      return (form, pieced parts)
    new fields

/-- Compiles one argument and gives a fragment for each argument it expands to. -/
def convert (c : Compiler) (context : Context) (group : List Node) : Compile (List FragmentId) := do
  let parts ← (openAll group).mapM fun n => c.compile n context
  (← expand parts).mapM (combine c)

def convertAll (c : Compiler) (context : Context) (nodes : List Node) :
    Compile (List FragmentId) :=
  (groups nodes).flatMapM (convert c context)

/-- The fragment of an argument that does not multiply. -/
def convertOne (c : Compiler) (context : Context) (group : List Node) :
    Compile (Option FragmentId) := do
  match ← convert c context group with
  | [only] => return some only
  | _ => return none

/-- A form inside a substitution. -/
def interpolated (c : Compiler) (id : FragmentId) (form : Form) : Compile (Option Text) :=
  return (← c.read id form).map Js.substitution

/-- An argument for a command string: bare if possible, else quoted, else a value. -/
def argument (c : Compiler) (id : FragmentId) : Compile (Option Text) := do
  match ← c.readFirst id [.argument, .singleQuoted] with
  | some text => return some text
  | none => interpolated c id .stringValue

/-- One fragment for a whole argument list. -/
def unify (c : Compiler) (context : Context) (nodes : List Node) : Compile FragmentId := do
  match ← convertAll c context nodes with
  | [only] =>
    let forms ← Form.all.filterM fun form => supplies only form
    let forwarded := forms.map fun form => (form, Recipe.same only form)
    let array := if ← c.has only .value then [(Form.array, Recipe.bracketed only)] else []
    new ((.argumentList, .argumentOf only) :: array ++ forwarded)
  | several => new [(.argumentList, .argumentsOf several), (.array, .arrayOf several)]

/-- A form of each fragment, none if one of them lacks it. -/
def readEach (c : Compiler) (form : Form) : List FragmentId → Compile (Option (List Text))
  | [] => return some []
  | id :: rest => do
    match ← c.read id form with
    | none => return none
    | some text => return (← readEach c form rest).map (text :: ·)

/-- The arguments as the innards of a template literal. -/
def templateArguments (c : Compiler) (context : Context) (nodes : List Node) :
    Compile (Option (List Text)) := do
  readEach c .templateInnards (← convertAll c context nodes)

/-- An argument list as a template literal, the arguments parted by single blanks. -/
def templateOf (c : Compiler) (context : Context) (nodes : List Node) : Compile (Option Text) :=
  return (← templateArguments c context nodes).map fun pieces =>
    Js.template (Text.join " " pieces)

end ShellToDeno.Arguments
