import ShellToDeno.Compile.Redirect
import ShellToDeno.Tree.Parse
import ShellToDeno.Tree.Query

/-!
Pipelines and lists. Commands of the system stay together in one command string as long as that is
possible; what remains is joined as a condition.
-/
namespace ShellToDeno.Compile

open Shell

/-- The forms of some commands, or the node that has none. -/
def pureCommands (c : Compiler) : List (Node × FragmentId) → Compile (Except Node (List Text))
  | [] => return .ok []
  | (n, id) :: rest => do
    match ← c.read id .pureCommand with
    | none => return .error n
    | some text => return (← pureCommands c rest).map (text :: ·)

/-- Compiles the segments of a pipeline, none if one of them cannot be compiled. -/
def segments (c : Compiler) : List Node → Compile (Option (List (Node × FragmentId)))
  | [] => return some []
  | n :: rest => do
    let id ← c.compile n .pipeline
    if ← isFallback id then return none
    return (← segments c rest).map ((n, id) :: ·)

/-- Joins the commands of a pipeline into the call of the last one. -/
def pipelineOf (c : Compiler) (n : Node) (compiled : List (Node × FragmentId)) :
    Compile FragmentId := do
  match ← pureCommands c compiled.dropLast with
  | .error segment =>
    log .warn "pipeline segment cannot be piped" [("segment", segment.text)]
    fallback n.text
  | .ok commands =>
    let last ← match compiled.getLast? with
      | some (_, id) => c.read id .redirectedCall
      | none => pure none
    match last.bind (Dax.prepend? (Text.join " | " commands ++ " | ")) with
    | none => giveUp n "last pipeline segment has no exec call"
    | some call =>
      new [(.redirectedCall, .text call), (.statement, .text call),
        (.redirectedCommand, .piped (compiled.map Prod.snd))]

def pipeline (c : Compiler) (n : Node) : Compile FragmentId := do
  if n.children.any fun child => child.kind == .token "|&" then
    return ← giveUp n "|& pipes are not supported"
  let parts := n.children.filter fun child =>
    !child.isAny [.token "|", .whitespace, .comment, .text]
  if parts.length < 2 then return ← giveUp n "pipeline without segments"
  match ← segments c parts with
  | none => fallback n.text
  | some compiled => pipelineOf c n compiled

/-- The operator of a list. -/
inductive Junction where
  | both
  | either
  deriving DecidableEq, Repr

namespace Junction

def ofKind? (kind : Kind) : Option Junction :=
  if kind == .token "&&" then some both else if kind == .token "||" then some either else none

def text : Junction → Text
  | both => "&&"
  | either => "||"

end Junction

/-- Whether a child of a list is one of its sides. -/
def isSide (n : Node) : Bool :=
  (Junction.ofKind? n.kind).isNone && !n.isAny [.whitespace, .comment, .text]

/-- The sides of a list and the operator between them. -/
def listParts? (n : Node) : Option (Node × Junction × Node) :=
  let junctions := n.children.filterMap fun child => Junction.ofKind? child.kind
  match n.children.filter isSide, junctions.getLast? with
  | [left, right], some junction => some (left, junction, right)
  | _, _ => none

/-- A script in which a jump is guarded by a condition. -/
def guardedScript (indent : Text) (left : Node) (junction : Junction) (jump : Text) : Text :=
  let condition := match junction with
    | .both => left.text
    | .either =>
      if left.isAny [.list, .pipeline] then "! \x7b " ++ left.text ++ "; \x7d"
      else "! " ++ left.text
  "\n" ++ indent ++ "if " ++ condition ++ "; then\n" ++ indent ++ "    " ++ jump ++ "\n" ++
    indent ++ "fi\n"

def isJump (call : Call) : Bool :=
  call.name == "continue" || call.name == "break" || call.name == "return"

/-- A jump after a condition becomes an if statement, since it cannot stand in an expression. -/
def guardedJump (c : Compiler) (context : Context) (n : Node) : Compile (Option FragmentId) := do
  let some (left, junction, right) := listParts? n | return none
  if right.kind != .command then return none
  let some call := Call.ofNode? context right | return none
  if !isJump call then return none
  match Node.parse (guardedScript n.indent left junction right.text) with
  | .error (.broken fault) => throw fault
  | .error (.rejected diagnosis) =>
    log .debug "could not rewrite guarded control flow"
      [("error", diagnosis.render), ("text", n.text)]
    return none
  | .ok tree =>
    match ← tree.queryFirst "(if_statement)" with
    | none => return none
    | some statement => return some (← c.compile statement context)

mutual

/-- Whether a node is a test, possibly negated. -/
def isTest : Node → Bool
  | ⟨.negatedCommand, _, children, _, _, _⟩ => isTestAfterMark children
  | n => n.kind == .testCommand

def isTestAfterMark : List Node → Bool
  | [] => false
  | n :: rest =>
    if n.isAny [.whitespace, .comment, .token "!"] then isTestAfterMark rest else isTest n

end

/-- The sides as one command string, if both are commands. -/
def joinedCommands (c : Compiler) (rightmost : Bool) (junction : Junction)
    (left right : FragmentId) : Compile (Option FragmentId) := do
  let some l ← c.read left .chainedCommand | return none
  let lead := l ++ " " ++ junction.text ++ " "
  if let some r ← c.read right .chainedCommand then
    let innards := lead ++ r
    return some (← new [(.chainedCommand, .text innards), (.statement, .text (Dax.call innards))])
  if !rightmost then return none
  let some r ← c.read right .redirectedCall | return none
  match Dax.prepend? lead r with
  | none => return none
  | some call => return some (← new [(.redirectedCall, .text call), (.statement, .text call)])

/-- Joins the compiled sides of a list. -/
def joinSides (c : Compiler) (n : Node) (rightmost native : Bool) (junction : Junction)
    (left right : FragmentId) : Compile FragmentId := do
  if (← isFallback left) || (← isFallback right) then return ← fallback n.text
  if native then
    if let some id ← joinedCommands c rightmost junction left right then return id
  else discard (c.read left .chainedCommand)
  let l ← c.read left .condition
  let r ← c.read right .statement
  match l, r with
  | some l, some r =>
    new [(.statement, .text ("(" ++ l ++ ") " ++ junction.text ++ " (" ++ r ++ ")")),
      (.condition, .joinedCondition l junction.text right)]
  | _, _ => giveUp n "list sides cannot be joined"

mutual

/-- Joins the sides of a list; only the rightmost side may carry sinks. -/
def chain (c : Compiler) (context : Context) (rightmost : Bool) : Node → Compile FragmentId
  | ⟨kind, text, children, indent, start, stop⟩ => do
    let n : Node := ⟨kind, text, children, indent, start, stop⟩
    let some (left, junction, right) := listParts? n | giveUp n "malformed list"
    match ← chainSides c context [false, rightmost] children with
    | [l, r] => joinSides c n rightmost (!isTest left && !isTest right) junction l r
    | _ => giveUp n "malformed list"

/-- Compiles the sides among some nodes, each with its mark for the rightmost side. -/
def chainSides (c : Compiler) (context : Context) : List Bool → List Node →
    Compile (List FragmentId)
  | _, [] => return []
  | marks, n :: rest => do
    if isSide n then
      let id ← if n.kind == .list then chain c context (marks.headD false) n
        else c.compile n .list
      return id :: (← chainSides c context marks.tail rest)
    chainSides c context marks rest

end

/-- A list of two sides. -/
def list (c : Compiler) (context : Context) (n : Node) : Compile FragmentId := do
  match ← guardedJump c context n with
  | some id => return id
  | none => chain c context true n

end ShellToDeno.Compile
