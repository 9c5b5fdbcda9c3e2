import ShellToDeno.Compile.Builtins

/-!
Redirected statements. One clause that the command string understands stays in it; all others become
sinks of the call.
-/
namespace ShellToDeno

/-- A clause such as `2>file`. -/
structure Redirection where
  /-- The whole clause as it is written. -/
  text : Text
  descriptor : Text
  operator : Text
  target : Node
  /-- The clause up to its target. -/
  lead : Text

namespace Redirection

def operators : List Text := [">", ">>", ">|", "<", "<>", "&>", "&>>", ">&", "<&"]

/-- Reads a clause; `before` holds the nodes already passed. -/
def ofChildren? (text descriptor operator before : Text) : List Node → Option Redirection
  | [] => none
  | n :: rest =>
    if n.kind == .fileDescriptor then ofChildren? text n.text operator (before ++ n.text) rest
    else if n.isLeaf && n.kind.name == n.text && operator.isEmpty && operators.contains n.text then
      ofChildren? text descriptor n.text (before ++ n.text) rest
    else if n.kind == .whitespace then ofChildren? text descriptor operator (before ++ n.text) rest
    else if operator.isEmpty || n.kind == .processSubstitution then none
    else some ⟨text, descriptor, operator, n, before⟩

def ofNode? (n : Node) : Option Redirection := ofChildren? n.text [] [] [] n.children

/-- Whether a clause sends a stream to where standard output or standard error goes. -/
def duplicates (r : Redirection) : Bool :=
  r.operator == ">&" && (r.target.text == "1" || r.target.text == "2")

/-- Whether a clause only discards or duplicates output. -/
def isSilent (r : Redirection) : Bool :=
  r.duplicates || (r.operator != "<" && r.operator != "<&" && r.target.text == "/dev/null")

end Redirection

/-- Where a stream goes. -/
inductive Sink where
  | inheritOutput
  | inheritErrors
  | discard
  | file (expression : Text)
  deriving DecidableEq, Repr

def Sink.text : Sink → Text
  | .inheritOutput => "...$stdout"
  | .inheritErrors => "...$stderr"
  | .discard => "\"null\""
  | .file expression => expression

/-- Which streams a clause redirects. -/
inductive Streams where
  | output | errors | both | other
  deriving DecidableEq, Repr

namespace Streams

def hasOutput : Streams → Bool
  | output | both => true
  | errors | other => false

def hasErrors : Streams → Bool
  | errors | both => true
  | output | other => false

/-- The stream of a descriptor; standard output when none is written. -/
def ofDescriptor (descriptor : Text) : Streams :=
  if descriptor.isEmpty || descriptor == "1" then output
  else if descriptor == "2" then errors
  else other

end Streams

/-- A sink, with the place and the text of the clause that gave it. -/
structure PlacedSink where
  sink : Sink
  place : Nat
  clause : Text

namespace PlacedSink

/-- A stream that follows another one which was redirected only later needs a review: the shell
leaves it where it was. -/
def review (follower followed : PlacedSink) : Text :=
  if follower.place < followed.place then
    " /* FIXME: " ++ Js.commentText follower.clause ++ " comes before " ++
      Js.commentText followed.clause ++ ", so bash leaves that stream where it was */"
  else []

end PlacedSink

/-- The sinks of both streams. -/
structure Sinks where
  output : Option PlacedSink
  errors : Option PlacedSink

namespace Sinks

def put (s : Sinks) (streams : Streams) (sink : PlacedSink) : Sinks :=
  ⟨if streams.hasOutput then some sink else s.output,
   if streams.hasErrors then some sink else s.errors⟩

def method (name : Text) : Option Sink → Text
  | some sink => "." ++ name ++ "(" ++ sink.text ++ ")"
  | none => []

def methods (output errors : Option Sink) : Text := method "stdout" output ++ method "stderr" errors

/-- The methods of the call. Streams that point at each other are swapped; otherwise a stream that
points at a redirected one follows it. -/
def text (s : Sinks) : Text :=
  match s.output, s.errors with
  | some output, some errors =>
    if output.sink == .inheritErrors && errors.sink == .inheritOutput then
      methods (some output.sink) (some errors.sink)
    else if errors.sink == .inheritOutput then
      methods (some output.sink) (some output.sink) ++ errors.review output
    else if output.sink == .inheritErrors then
      methods (some errors.sink) (some errors.sink) ++ output.review errors
    else methods (some output.sink) (some errors.sink)
  | output, errors => methods (output.map PlacedSink.sink) (errors.map PlacedSink.sink)

end Sinks

namespace Compile

open Arguments

/-- The target of a clause, unless it multiplies or cannot be compiled. -/
def redirectTarget (c : Compiler) (context : Context) (r : Redirection) :
    Compile (Option FragmentId) := do
  let some id ← convertOne c context [r.target] | return none
  return if ← isFallback id then none else some id

/-- A clause that may stay in the command string. -/
def inlineRedirect (c : Compiler) (context : Context) (r : Redirection) :
    Compile (Option Text) := do
  let known := r.descriptor.isEmpty || r.descriptor == "0" || r.descriptor == "1" ||
    r.descriptor == "2"
  let plain := r.operator == ">" || r.operator == ">>" || r.operator == "<"
  if !known || !(plain || r.duplicates) then return none
  let some id ← redirectTarget c context r | return none
  return (← argument c id).map (r.lead ++ ·)

/-- A file to write to or to append to. -/
def fileSink (c : Compiler) (context : Context) (r : Redirection) : Compile (Option Sink) := do
  if r.target.text == "/dev/null" then return some .discard
  let some id ← redirectTarget c context r | return none
  let some path ← c.read id .value | return none
  if r.operator == ">>" || r.operator == "&>>" then
    use .append
    return some (.file ("appendTo(" ++ path ++ ")"))
  use .overwrite
  return some (.file ("overwrite(" ++ path ++ ")"))

def duplicateSink (r : Redirection) : Compile Sink := do
  if r.target.text == "1" then
    use .stdout
    return .inheritOutput
  use .stderr
  return .inheritErrors

/-- Which streams a clause redirects, and where they go. -/
def sinkOf (c : Compiler) (context : Context) (r : Redirection) :
    Compile (Option (Streams × Sink)) := do
  let file (streams : Streams) : Compile (Option (Streams × Sink)) := do
    return (← fileSink c context r).map (streams, ·)
  if r.operator == "&>" || r.operator == "&>>" then
    if r.descriptor.isEmpty then file .both else return none
  else if r.operator == ">" || r.operator == ">>" || r.operator == ">|" then
    let streams := Streams.ofDescriptor r.descriptor
    if streams == .other then return none else file streams
  else if r.operator != ">&" then return none
  else if r.duplicates then return some (.ofDescriptor r.descriptor, ← duplicateSink r)
  else if r.descriptor.isEmpty && r.target.text != "-" then file .both
  else return none

/-- The sinks of all clauses, a later clause winning; `place` counts the clauses. -/
def sinksOf (c : Compiler) (context : Context) (place : Nat) (sinks : Sinks) :
    List Redirection → Compile (Option Sinks)
  | [] => return some sinks
  | r :: rest => do
    match ← sinkOf c context r with
    | none => return none
    | some (streams, sink) =>
      sinksOf c context (place + 1) (sinks.put streams ⟨sink, place, r.text⟩) rest

/-- The parts of a redirected statement. -/
inductive RedirectedParts where
  | badClause (text : Text)
  | document
  | found (inner : Option Node) (clauses : List Redirection)

namespace RedirectedParts

def ofChildren (inner : Option Node) (clauses : List Redirection) : List Node → RedirectedParts
  | [] => .found inner clauses.reverse
  | n :: rest =>
    if n.kind == .fileRedirect then
      match Redirection.ofNode? n with
      | some r => ofChildren inner (r :: clauses) rest
      | none => .badClause n.text
    else if n.isAny [.heredocRedirect, .herestringRedirect, .heredocBody] then .document
    else if n.isAny [.whitespace, .comment, .text] then ofChildren inner clauses rest
    else ofChildren (inner.or (some n)) clauses rest

end RedirectedParts

/-- Whether a command only looks another one up. -/
def isLookup (c : Compiler) (n : Node) : Bool :=
  n.kind == .command &&
    match Call.ofNode? .none n with
    | none => false
    | some call =>
      match c.registry.find? call.name with
      | some (.lookup _) => !call.name.isEmpty
      | _ => false

/-- The forms of a command with its clauses. -/
def redirectedFields (c : Compiler) (context : Context) (command : Text)
    (clauses : List Redirection) : Compile (Option Fields) := do
  let inline ← match clauses with
    | [only] => inlineRedirect c context only
    | _ => pure none
  if let some clause := inline then
    let innards := command ++ " " ++ clause
    return some [(.redirectedCommand, .text innards), (.statement, .text (Dax.call innards))]
  let some sinks ← sinksOf c context 0 ⟨none, none⟩ clauses | return none
  let call := Dax.call command ++ sinks.text
  return some [(.redirectedCall, .text call), (.statement, .text call)]

def redirectedStatement (c : Compiler) (context : Context) (n inner : Node)
    (clauses : List Redirection) : Compile FragmentId := do
  let id ← c.compile inner context
  if ← isFallback id then return ← fallback n.text
  let some command ← c.read id .chainedCommand
    | giveUp n "redirected statement has no command form"
  let some fields ← redirectedFields c context command clauses
    | giveUp n "unsupported redirect combination"
  if (← supplies id .condition) && isLookup c inner && clauses.all Redirection.isSilent then
    new ([(.condition, .same id .condition), (.negation, .same id .negation)] ++ fields)
  else new fields

/-- A statement with redirections. -/
def redirected (c : Compiler) (context : Context) (n : Node) : Compile FragmentId := do
  match RedirectedParts.ofChildren none [] n.children with
  | .badClause text => giveUp n ("unsupported redirect " ++ text)
  | .document => giveUp n "here-documents are not supported"
  | .found none _ | .found _ [] => giveUp n "redirect without a command"
  | .found (some inner) clauses => redirectedStatement c context n inner clauses

end Compile

end ShellToDeno
