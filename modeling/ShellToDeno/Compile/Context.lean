import ShellToDeno.Text

/-! Where a node stands: this decides how assignments bind and whether a statement is needed. -/
namespace ShellToDeno

inductive Context where
  | none | program | doGroup | functionBody | ifCondition | ifConsequence | localAssignment
  | pipeline | list | forHeader | commandSubstitution
  deriving DecidableEq, Repr

namespace Context

def names : List (Context × String) :=
  [(.none, "none"), (program, "program"), (doGroup, "do_group"), (functionBody, "function_body"),
   (ifCondition, "if_condition"), (ifConsequence, "if_consequence"),
   (localAssignment, "local_variable_assignment"), (pipeline, "pipeline"), (list, "list"),
   (forHeader, "for_header"), (commandSubstitution, "command_substitution")]

def name (c : Context) : Text := ((names.lookup c).map Text.ofString).getD []

/-- An unknown name is no context. -/
def ofName (name : Text) : Context :=
  ((names.find? fun entry => Text.ofString entry.2 == name).map Prod.fst).getD .none

/-- Whether nodes here must be whole statements. -/
def needsStatement : Context → Bool
  | program | doGroup | functionBody | ifConsequence => true
  | _ => false

end Context

end ShellToDeno
