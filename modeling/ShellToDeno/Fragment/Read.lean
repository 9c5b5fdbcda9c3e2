import ShellToDeno.Arguments.Combine
import ShellToDeno.Dax.Call
import ShellToDeno.Js.StringLiteral
import ShellToDeno.Js.Comment

/-!
Reading the forms of fragments. A form that is not supplied is derived from others: commands become
calls, calls become conditions and strings, and so on.
-/
namespace ShellToDeno

/-- A number in quotes of any kind. -/
def quotedNumber? (literal : Text) : Option Text :=
  let isQuote (b : UInt8) : Bool := b == '\'' || b == '"' || b == '`'
  match literal with
  | [] => none
  | first :: rest =>
    match rest.getLast? with
    | none => none
    | some last =>
      let body := rest.dropLast
      let digits := match Text.cut? "." body with
        | some (whole, part) => Text.isDigits whole && Text.isDigits part
        | none => Text.isDigits body
      if isQuote first && isQuote last && digits then some body else none

namespace Fragment

open Compile

/-- A form made from another, if the other is there. -/
def via (c : Compiler) (id : FragmentId) (form : Form) (f : Text → Text) : Compile (Option Text) :=
  return (← c.read id form).map f

/-- A form that the fragment does not supply. -/
def derive (c : Compiler) (id : FragmentId) : Form → Compile (Option Text)
  | .singleQuoted => via c id .quotedInnards fun v => "'" ++ v ++ "'"
  | .redirectedCommand => c.read id .pureCommand
  | .chainedCommand => c.read id .redirectedCommand
  | .plainCall => via c id .chainedCommand Dax.call
  | .redirectedCall => c.read id .plainCall
  | .textCall => via c id .redirectedCall (· ++ ".text()")
  | .captureCall => do
    match ← c.read id .chainedCommand with
    | some v => return some (Dax.captureStart ++ v ++ "`")
    | none =>
      return ((← c.read id .redirectedCall).bind Dax.callBody?).map (Dax.captureStart ++ ·)
  | .success => via c id .redirectedCall fun v => "((" ++ v ++ ").code == 0)"
  | .failure => via c id .redirectedCall fun v => "((" ++ v ++ ").code != 0)"
  | .templateInnards => via c id .textCall Js.substitution
  | .template => via c id .templateInnards Js.template
  | .stringValue => do
    if ← Compile.supplies id .number then
      if let some v ← c.read id .number then return some (Js.stringLiteral v)
    c.readFirst id [.template, .textCall]
  | .number => return (← c.read id .stringValue).bind quotedNumber?
  | .value => c.readFirst id [.array, .number, .stringValue, .success]
  | .condition => c.readFirst id [.success, .value]
  | .negation => do
    if ← Compile.supplies id .condition then
      if let some v ← c.read id .condition then return some ("!(" ++ v ++ ")")
    match ← c.read id .failure with
    | some v => return some v
    | none => via c id .condition fun v => "!(" ++ v ++ ")"
  | .statement => c.readFirst id [.plainCall, .value]
  | .argument | .quotedInnards | .pureCommand | .array | .argumentList => return none

/-- The pieces of some fragments joined, none if one of them has no piece. -/
def joinPieces (piece : FragmentId → Compile (Option Text)) :
    List FragmentId → Compile (Option (List Text))
  | [] => return some []
  | id :: rest => do
    match ← piece id with
    | none => return none
    | some text => return (← joinPieces piece rest).map (text :: ·)

def argumentPiece (c : Compiler) (id : FragmentId) : Compile (Option Text) := do
  if let some v ← c.read id .argument then return some v
  if let some v ← c.read id .templateInnards then
    if Dax.isBare v then return some v
  Arguments.interpolated c id .value

/-- A bare spelling between single quotes: its double-quoted apostrophes leave the quotes. -/
def bareQuoted (c : Compiler) (id : FragmentId) : List Form → Compile (Option Text)
  | [] => return none
  | form :: rest => do
    if let some v ← c.read id form then
      if Dax.isBare v then return some (Text.replaceAll "\"'\"" "'\"'\"'" v)
    bareQuoted c id rest

def quotedPiece (c : Compiler) (id : FragmentId) : Compile (Option Text) := do
  if let some v ← c.read id .quotedInnards then return some v
  if let some v ← bareQuoted c id [.argument, .templateInnards] then return some v
  Arguments.interpolated c id .value

def templatePiece (c : Compiler) (id : FragmentId) : Compile (Option Text) := do
  if let some v ← c.read id .templateInnards then return some v
  Arguments.interpolated c id .stringValue

/-- A form that the fragment supplies itself. -/
def readSupplied (c : Compiler) (id : FragmentId) (form : Form) : Compile (Option Text) := do
  if ← Compile.supplies id form then c.read id form else return none

/-- The output of a command as an expression. -/
def captured (c : Compiler) (id : FragmentId) : Compile (Option Text) := do
  if let some v ← readSupplied c id .stringValue then return some v
  if let some v ← readSupplied c id .value then return some v
  if let some v ← readSupplied c id .templateInnards then return some (Js.template v)
  c.read id .captureCall

/-- Reads a form for output; a fault leaves a marker. -/
def readOr (c : Compiler) (id : FragmentId) (n : Node) (form : Form) : Compile (Option Text) :=
  tryCatch (c.read id form) fun fault => do
    log .error "internal error while rendering node"
      [("panic", fault.message), ("node_type", n.kind.name), ("form", form.name)]
    return some (Js.marker n.text)

/-- The statement of a fragment; where no statement is needed its value will do. -/
def render (c : Compiler) (id : FragmentId) (n : Node) (context : Context) : Compile Text := do
  if let some text ← readOr c id n .statement then return text
  if !context.needsStatement then
    if let some text ← readOr c id n .value then return text
  log .warn "no statement form" [("node_type", n.kind.name), ("text", n.text)]
  return Js.marker n.text

/-- A whole command for a command string. -/
def commandLine (c : Compiler) (call : Call) : Compile (Option Text) := do
  let line ← Arguments.unify c call.context (call.nameNode :: call.arguments)
  return (← c.read line .argumentList).map (call.assignments ++ ·)

def groupText (c : Compiler) (members : List (Node × FragmentId)) (lead indent : Text)
    (context : Context) : Compile Text := do
  if members.isEmpty then return "\x7b\n\n" ++ indent ++ "\x7d"
  let body ← members.mapM fun (n, id) => render c id n context
  return "\x7b\n" ++ lead ++ body.flatten ++ "\n" ++ indent ++ "\x7d"

/-- Follows a recipe. -/
def cook (c : Compiler) : Recipe → Compile (Option Text)
  | .text value => return some value
  | .absent => return none
  | .same id form => c.read id form
  | .labelled label form => do
    match (← get).labels[label]? with
    | some id => c.readAny id form
    | none => throw .outOfRange
  | .negated id => via c id .pureCommand ("! " ++ ·)
  | .captured id => captured c id
  | .capturedArgument id => return (← captured c id).map Js.substitution
  | .capturedInnards id => do
    if ← Compile.supplies id .templateInnards then c.read id .templateInnards
    else return (← captured c id).map Js.substitution
  | .piped ids => return (← Arguments.readEach c .redirectedCommand ids).map (Text.join " | ")
  | .joinedCondition left operator right =>
    via c right .condition fun v => "(" ++ left ++ ") " ++ operator ++ " (" ++ v ++ ")"
  | .group members lead indent context => return some (← groupText c members lead indent context)
  | .commandLine call => commandLine c call
  | .commandCheck value negated => do
    use .hasCommand
    return some ((if negated then "!" else "") ++ "hasCommand(" ++ value ++ ")")
  | .joined form ids => do
    let pieces ← ids.mapM fun id => return (← c.read id form).getD []
    return some pieces.flatten
  | .joinedArgument ids => return (← joinPieces (argumentPiece c) ids).map List.flatten
  | .joinedQuoted ids => return (← joinPieces (quotedPiece c) ids).map List.flatten
  | .joinedTemplate ids => return (← joinPieces (templatePiece c) ids).map List.flatten
  | .bracketed id => return some ("[" ++ (← c.read id .value).getD [] ++ "]")
  | .argumentOf id => Arguments.argument c id
  | .argumentsOf ids =>
    return (← joinPieces (Arguments.argument c) ids).map (Text.join " ")
  | .arrayOf ids =>
    return (← Arguments.readEach c .value ids).map fun values => "[" ++ Text.join ", " values ++ "]"

/-- Marks a form as being made, makes it and keeps it. A fault on the way leaves the mark. -/
def make (c : Compiler) (id : FragmentId) (form : Form) : Compile (Option Text) := do
  setFragment id ((← fragment id).setSlot form .cooking)
  let value ← match (← fragment id).recipe? (some form) with
    | some recipe => cook c recipe
    | none => derive c id form
  setFragment id ((← fragment id).setSlot form (.known value))
  return value

/-- Reads a form of a fragment. -/
def read (c : Compiler) (id : FragmentId) : Option Form → Compile (Option Text)
  | none => throw (.violated .precondition "unknown form -1")
  | some form => do
    match (← fragment id).slot? form with
    | some (.known value) => return value
    | some .cooking =>
      throw (.violated .invariant ("form " ++ form.name ++ " depends on itself"))
    | none => make c id form

end Fragment

end ShellToDeno
