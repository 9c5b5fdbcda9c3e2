import ShellToDeno.Text

/-! What the compiler reports while it works. -/
namespace ShellToDeno

inductive Level where
  | debug | warn | error
  deriving DecidableEq, Repr

def Level.name : Level → Text
  | .debug => "debug"
  | .warn => "warn"
  | .error => "error"

structure LogEntry where
  level : Level
  message : Text
  fields : List (Text × Text)
  deriving DecidableEq, Repr

end ShellToDeno
