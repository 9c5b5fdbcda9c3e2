import ShellToDeno.Fragment.Read

/-! All forms of a fragment at once, and labels by which fragments can be named. -/
namespace ShellToDeno

/-- What a fragment gives, form by form. -/
structure Record where
  isFallback : Bool
  supplied : List Form
  /-- The forms that are there; reading one may be a fault. -/
  forms : List (Form × Except Fault Text)
  values : Option (List Text)

namespace Record

/-- Reads a form; one that is not there is left out. -/
def readForm (c : Compiler) (id : FragmentId) (form : Form) :
    Compile (Option (Form × Except Fault Text)) :=
  tryCatch (do return (← c.read id form).map fun value => (form, .ok value))
    fun fault => return some (form, .error fault)

/-- Reads all forms of a fragment in their order. -/
def read (c : Compiler) (id : FragmentId) : Compile Record := do
  let f ← Compile.fragment id
  let forms ← Form.all.filterMapM (readForm c id)
  return ⟨f.isFallback, Form.all.filter fun form => f.supplies (some form), forms, f.values⟩

end Record

namespace Compile

/-- Gives a fragment the next label. -/
def label (id : FragmentId) : Compile Nat := do
  let next := (← get).labels.size
  modify fun s => { s with labels := s.labels.push id }
  return next

/-- The fragment with a label. -/
def labelled (label : Int) : Compile FragmentId := do
  if label < 0 then throw .outOfRange
  match (← get).labels[label.toNat]? with
  | some id => return id
  | none => throw .outOfRange

/-- The first label of a fragment, a new one if it has none. -/
def labelOf (id : FragmentId) : Compile Nat := do
  match (← get).labels.idxOf? id with
  | some found => return found
  | none => label id

/-- Runs a step; a fault keeps what the step has done. -/
def run {α : Type} (state : CompileState) (step : Compile α) : Except Fault α × CompileState :=
  StateT.run (ExceptT.run step) state

end Compile

end ShellToDeno
