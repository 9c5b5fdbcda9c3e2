import ShellToDeno.Text

/-!
Contracts between the parts of the program. A broken one is a fault, never an error of the script:
whoever asked for the work catches it and leaves a marker.
-/
namespace ShellToDeno

inductive Clause where
  | precondition
  | postcondition
  | invariant
  deriving DecidableEq, Repr

def Clause.name : Clause → Text
  | .precondition => "PRECONDITION"
  | .postcondition => "POSTCONDITION"
  | .invariant => "INVARIANT"

inductive Fault where
  | violated (clause : Clause) (what : Text)
  /-- An offset outside its text, or a position outside its list. -/
  | outOfRange
  /-- A query that is no chain of selectors; the pattern is kept as it is quoted. -/
  | badQuery (quoted : Text)
  /-- The work was cut off before its end. -/
  | exhausted
  deriving DecidableEq, Repr

def Fault.message : Fault → Text
  | .violated clause what => clause.name ++ " VIOLATION: " ++ what
  | .outOfRange => "runtime error"
  | .badQuery quoted => "invalid query " ++ quoted
  | .exhausted => "work limit reached"

namespace Contract

def check (clause : Clause) (holds : Bool) (what : Text) : Except Fault Unit :=
  if holds then .ok () else .error (.violated clause what)

def present (isNil : Bool) (name : Text) : Except Fault Unit :=
  check .precondition (!isNil) (name ++ " must not be nil")

/-- How the caller of a long-running loop can end it. -/
inductive Lifetime where
  | missing
  | background
  | cancellable
  deriving DecidableEq, Repr

def bounded (lifetime : Lifetime) (place : Text) : Except Fault Unit :=
  match lifetime with
  | .missing => .error (.violated .precondition (place ++ ": context must not be nil"))
  | .background => .error (.violated .precondition (place ++
      ": context must not be Background() - parent context required for cancellation"))
  | .cancellable => .ok ()

end Contract

end ShellToDeno
