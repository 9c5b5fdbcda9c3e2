import ShellToDeno.Form
import ShellToDeno.Features
import ShellToDeno.Contract
import ShellToDeno.Tree.Node
import ShellToDeno.Compile.Context
import ShellToDeno.Compile.Log
import ShellToDeno.Compile.Registry

/-!
Fragments. A fragment supplies some of its forms as recipes; a recipe is cooked when its form is
first read, and the result is kept. All fragments of a run lie in one store and refer to each other
by their place in it, so a form may come to depend on itself; reading such a form is a fault.
-/
namespace ShellToDeno

abbrev FragmentId := Nat

/-- A simple command, split into its name and what follows it. -/
structure Call where
  node : Node
  /-- The unescaped name, empty when it is computed. -/
  name : Text
  nameNode : Node
  /-- The nodes after the name, layout included. -/
  arguments : List Node
  /-- The assignments in front, as they stand in a command string. -/
  assignments : Text
  context : Context
  deriving Repr

/-- How a form is made. -/
inductive Recipe where
  | text (value : Text)
  /-- Supplied, but there is nothing to give. -/
  | absent
  | same (id : FragmentId) (form : Form)
  /-- The form of the fragment with a label, which may be given later. -/
  | labelled (label : Nat) (form : Option Form)
  /-- The text of a command with a negation in front. -/
  | negated (id : FragmentId)
  /-- The output of a command substitution: as an expression, as an argument, inside a template. -/
  | captured (id : FragmentId)
  | capturedArgument (id : FragmentId)
  | capturedInnards (id : FragmentId)
  | piped (ids : List FragmentId)
  /-- Two conditions and the operator between them; the left one is known. -/
  | joinedCondition (left operator : Text) (right : FragmentId)
  /-- The statements of a group in braces. -/
  | group (members : List (Node × FragmentId)) (lead indent : Text) (context : Context)
  | commandLine (call : Call)
  /-- A check that a command exists. -/
  | commandCheck (value : Text) (negated : Bool)
  /-- One form of each part, joined. -/
  | joined (form : Form) (ids : List FragmentId)
  | joinedArgument (ids : List FragmentId)
  | joinedQuoted (ids : List FragmentId)
  | joinedTemplate (ids : List FragmentId)
  | bracketed (id : FragmentId)
  | argumentOf (id : FragmentId)
  | argumentsOf (ids : List FragmentId)
  | arrayOf (ids : List FragmentId)
  deriving Repr

/-- What is known of a form. -/
inductive Slot where
  | cooking
  | known (value : Option Text)
  deriving DecidableEq, Repr

abbrev Fields := List (Form × Recipe)

structure Fragment where
  /-- A recipe for no form at all can be supplied but never read. -/
  supplied : List (Option Form × Recipe)
  slots : List (Form × Slot)
  /-- The values of a brace expression, which makes one argument into many. -/
  values : Option (List Text)
  /-- Marks what could not be compiled. -/
  isFallback : Bool
  deriving Repr

namespace Fragment

def ofFields (fields : Fields) : Fragment :=
  ⟨fields.map fun (form, recipe) => (some form, recipe), [], none, false⟩

def slot? (f : Fragment) (form : Form) : Option Slot := f.slots.lookup form

def setSlot (f : Fragment) (form : Form) (slot : Slot) : Fragment :=
  { f with slots := (form, slot) :: f.slots.filter fun entry => entry.1 != form }

def recipe? (f : Fragment) (form : Option Form) : Option Recipe := f.supplied.lookup form

def supplies (f : Fragment) (form : Option Form) : Bool := (f.recipe? form).isSome

end Fragment

structure CompileState where
  fragments : Array Fragment
  labels : Array FragmentId
  features : Features
  /-- Functions that the script has defined so far. -/
  functions : List Text
  /-- Function bodies around the current node. -/
  depth : Nat
  /-- What was reported, the last entry first. -/
  log : List LogEntry

def CompileState.empty : CompileState := ⟨#[], #[], .none, [], 0, []⟩

/-- A step of the work. A fault ends it but keeps what was done to the state. -/
abbrev Compile := ExceptT Fault (StateM CompileState)

/-- The parts of the compiler that call each other. -/
structure Compiler where
  registry : Registry
  compile : Node → Context → Compile FragmentId
  readAny : FragmentId → Option Form → Compile (Option Text)

namespace Compiler

def read (c : Compiler) (id : FragmentId) (form : Form) : Compile (Option Text) :=
  c.readAny id (some form)

def has (c : Compiler) (id : FragmentId) (form : Form) : Compile Bool :=
  return (← c.read id form).isSome

/-- The first of some forms that a fragment has. -/
def readFirst (c : Compiler) (id : FragmentId) : List Form → Compile (Option Text)
  | [] => return none
  | form :: rest => do
    match ← c.read id form with
    | some value => return some value
    | none => c.readFirst id rest

end Compiler

namespace Compile

def fragment (id : FragmentId) : Compile Fragment := do
  match (← get).fragments[id]? with
  | some f => return f
  | none => throw .outOfRange

def setFragment (id : FragmentId) (f : Fragment) : Compile Unit :=
  modify fun s => { s with fragments := s.fragments.setIfInBounds id f }

def add (f : Fragment) : Compile FragmentId := do
  let id := (← get).fragments.size
  modify fun s => { s with fragments := s.fragments.push f }
  return id

def new (fields : Fields) : Compile FragmentId := add (.ofFields fields)

def statement (text : Text) : Compile FragmentId := new [(.statement, .text text)]

/-- A fragment that is a statement and the same as a value. -/
def expression (text : Text) : Compile FragmentId :=
  new [(.statement, .text text), (.value, .text text)]

def supplies (id : FragmentId) (form : Form) : Compile Bool :=
  return (← fragment id).supplies (some form)

def isFallback (id : FragmentId) : Compile Bool := return (← fragment id).isFallback

def values? (id : FragmentId) : Compile (Option (List Text)) := return (← fragment id).values

def use (feature : Feature) : Compile Unit :=
  modify fun s => { s with features := s.features.add feature }

def log (level : Level) (message : Text) (fields : List (Text × Text)) : Compile Unit :=
  modify fun s => { s with log := ⟨level, message, fields⟩ :: s.log }

end Compile

end ShellToDeno
