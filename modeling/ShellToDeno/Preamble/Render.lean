import ShellToDeno.Preamble.Template

/-! Rendering of templates. -/
namespace ShellToDeno.Template

/-- The values that templates print. -/
inductive Value where
  | nothing
  | flag (value : Bool)
  | text (value : Text)
  | list (values : List Text)
  | record (fields : List (Text × Value))

namespace Value

mutual

def print : Value → Text
  | .nothing => "<no value>"
  | .flag true => "true"
  | .flag false => "false"
  | .text value => value
  | .list values => "[" ++ Text.join " " values ++ "]"
  | .record fields => "&\x7b" ++ Text.join " " (printAll fields) ++ "\x7d"

def printAll : List (Text × Value) → List Text
  | [] => []
  | (_, value) :: rest => value.print :: printAll rest

end

/-- Whether a value counts as true. -/
def holds : Value → Bool
  | .nothing => false
  | .flag value => value
  | .text value => !value.isEmpty
  | .list values => !values.isEmpty
  | .record _ => true

def field? (name : Text) : Value → Option Value
  | .record fields => fields.lookup name
  | _ => none

end Value

def Operand.value? (self : Value) : Operand → Option Value
  | .self => some self
  | .literal text => some (.text text)
  | .field names => names.foldlM (fun value name => value.field? name) self

def Expression.value? (self : Value) : Expression → Option Value
  | .operand value => value.value? self
  | .join [values, separator] => do
    match ← values.value? self, ← separator.value? self with
    | .list parts, .text between => return .text (Text.join between parts)
    | _, _ => none
  | .join _ => none

mutual

/-- Renders a piece; `invoke` renders a named template. -/
def Piece.render (invoke : Text → Value → Option Text) (self : Value) : Piece → Option Text
  | .text value => some value
  | .print value => (value.value? self).map Value.print
  | .choice condition yes no => do
    if (← condition.value? self).holds then renderAll invoke self yes else renderAll invoke self no
  | .each list body otherwise => do
    match ← list.value? self with
    | .list [] => renderAll invoke self otherwise
    | .list values =>
      let parts ← values.mapM fun value => renderAll invoke (.text value) body
      return parts.flatten
    | _ => none
  | .call name none => invoke name .nothing
  | .call name (some argument) => do invoke name (← argument.value? self)

def renderAll (invoke : Text → Value → Option Text) (self : Value) : List Piece → Option Text
  | [] => some []
  | piece :: rest => do return (← piece.render invoke self) ++ (← renderAll invoke self rest)

end

/-- Renders a named template; calls nest no deeper than the fuel allows. -/
def renderNamed (definitions : Definitions) : Nat → Text → Value → Option Text
  | 0, _, _ => none
  | fuel + 1, name, self => do
    renderAll (renderNamed definitions fuel) self (← definitions.lookup name)

/-- How deep templates may call each other. -/
def depthLimit : Nat := 1000

def render (definitions : Definitions) (name : Text) (self : Value) : Option Text :=
  renderNamed definitions depthLimit name self

end ShellToDeno.Template
