import ShellToDeno.Text

/-! Calls that run a command string. -/
namespace ShellToDeno.Dax

def callStart : Text := "await $`"

def captureStart : Text := "await $.str`"

/-- The call that runs a command. -/
def call (innards : Text) : Text := callStart ++ innards ++ "`"

/-- What follows the start of a call: the command, the closing backtick and any methods. -/
def callBody? (call : Text) : Option Text := Text.cutStart? callStart call

/-- A call with more text at the front of its command. -/
def prepend? (innards call : Text) : Option Text :=
  (callBody? call).map fun body => callStart ++ innards ++ body

end ShellToDeno.Dax
