import ShellToDeno.Compile.Pipeline

/-! Conditions, loops, functions and groups. -/
namespace ShellToDeno.Compile

open Arguments

def bodyIndent : Text := "    "

def isLayout (n : Node) : Bool := n.isAny [.whitespace, .comment, .text, .token ";"]

/-- A run of statements without the separators around it. -/
def trimSeparators (nodes : List Node) : List Node :=
  let isTrailing (n : Node) : Bool := n.isAny [.whitespace, .token ";", .text]
  (nodes.reverse.dropWhile isTrailing).reverse.dropWhile fun n => n.kind == .whitespace

/-- The blanks that a body starts with, and its statements. A body on lines of its own keeps its
indentation; one that shares the line of its keyword is moved one level in. -/
def blockLead (indent : Text) (nodes : List Node) : Text × List Node :=
  let trimmed := trimSeparators nodes
  let ownLine : Bool := match nodes with
    | first :: _ => first.kind == .whitespace && first.text.contains "\n"
    | [] => false
  (if ownLine then (trimmed.head?.map Node.indent).getD [] else indent ++ bodyIndent, trimmed)

def block (c : Compiler) (context : Context) (indent : Text) (nodes : List Node) :
    Compile Text := do
  match blockLead indent nodes with
  | (_, []) => return []
  | (lead, trimmed) => return lead ++ (← statements c context trimmed)

def oneLine (text : Text) : Text := Text.replaceAll "\n" " " text

/-- A condition with its source, which is kept as a comment. -/
structure SourceCondition where
  source : Text
  indent : Text
  text : Text

/-- The first of some forms, read for output. -/
def readFirstOr (c : Compiler) (id : FragmentId) (n : Node) : List Form → Compile (Option Text)
  | [] => return none
  | form :: rest => do
    match ← Fragment.readOr c id n form with
    | some text => return some text
    | none => readFirstOr c id n rest

def conditionOf (c : Compiler) (nodes : List Node) : Compile SourceCondition := do
  let trimmed := trimSeparators nodes
  let source := oneLine (textOf trimmed)
  let indent := (trimmed.head?.map Node.indent).getD []
  match trimmed.filter fun n => !isLayout n with
  | [only] =>
    let id ← c.compile only .ifCondition
    let found ← readFirstOr c id only [.condition, .success, .value]
    return ⟨source, indent, found.getD (Js.marker source)⟩
  | _ =>
    log .warn "condition with several statements" [("text", source)]
    return ⟨source, indent, Js.marker source⟩

/-- The nodes after a keyword; all of them when it is missing. -/
def afterKeyword (keyword : Text) (nodes : List Node) : List Node :=
  match nodes.dropWhile fun n => n.kind != .token keyword with
  | [] => nodes
  | _ :: rest => rest

def elifClause (c : Compiler) (indent : Text) (n : Node) : Compile Text := do
  let before := n.children.takeWhile fun child => child.kind != .token "then"
  match n.children.drop before.length with
  | [] => return "\n" ++ indent ++ "\x7d else if (" ++ Js.marker n.text ++ ") \x7b\n"
  | _ :: body =>
    let condition ← conditionOf c (before.filter fun child => child.kind != .token "elif")
    return "\n" ++ indent ++ "// " ++ condition.source ++ "\n" ++ indent ++ "\x7d else if (" ++
      condition.text ++ ") \x7b\n" ++ (← block c .ifConsequence indent body)

/-- How far an if statement has been read. -/
inductive IfStage where
  | start
  | condition (nodes : List Node)
  | consequence (nodes : List Node)
  | clauses (closed : Bool)

/-- One clause after the first body. -/
def ifClause (c : Compiler) (indent : Text) (n : Node) : Compile Text := do
  if n.kind == .elifClause then elifClause c indent n
  else if n.kind == .elseClause then
    return "\n" ++ indent ++ "\x7d else \x7b\n" ++
      (← block c .ifConsequence indent (afterKeyword "else" n.children))
  else return "\n" ++ indent ++ "\x7d"

/-- Takes one child of an if statement; `indent` is that of the statement. -/
def ifStep (c : Compiler) (indent : Text) (stage : IfStage) (n : Node) :
    Compile (IfStage × Text) := do
  let isClause := n.isAny [.elifClause, .elseClause, .token "fi"]
  match stage with
  | .start => return (if n.kind == .token "if" then .condition [] else .start, [])
  | .condition nodes =>
    if n.kind != .token "then" then return (.condition (nodes ++ [n]), [])
    let condition ← conditionOf c nodes
    return (.consequence [], "// " ++ condition.source ++ "\n" ++ condition.indent ++ "if (" ++
      condition.text ++ ") \x7b\n")
  | .consequence nodes =>
    if !isClause then return (.consequence (nodes ++ [n]), [])
    let body ← block c .ifConsequence indent nodes
    return (.clauses (n.kind == .token "fi"), body ++ (← ifClause c indent n))
  | .clauses closed =>
    if !isClause then return (.clauses closed, [])
    return (.clauses (closed || n.kind == .token "fi"), ← ifClause c indent n)

def ifFrom (c : Compiler) (indent : Text) (stage : IfStage) (written : Text) :
    List Node → Compile (Option Text)
  | [] => return match stage with
    | .clauses true => some written
    | _ => none
  | n :: rest => do
    let (next, text) ← ifStep c indent stage n
    ifFrom c indent next (written ++ text) rest

def ifStatement (c : Compiler) (n : Node) : Compile FragmentId := do
  match ← ifFrom c n.indent .start [] n.children with
  | some text => statement text
  | none => giveUp n "malformed if statement"

/-- The body of a loop in braces. -/
def doGroup (c : Compiler) (indent : Text) (n : Node) : Compile Text := do
  let body := n.children.filter fun child =>
    !(child.isLeaf && child.isAny [.token "do", .token "done"])
  return "\x7b\n" ++ (← block c .doGroup indent body) ++ "\n" ++ indent ++ "\x7d"

def isSpace (b : UInt8) : Bool := b == ' ' || b == '\t' || b == '\n' || b == 12 || b == '\r'

/-- The three clauses of a counted loop. -/
def countedHeader? (header : Text) : Option Text := do
  let rest ← Text.cutStart? "for" header
  let inside ← Text.cutStart? "((" (rest.dropWhile isSpace)
  Text.cutEnd? "))" (Text.dropEndWhile isSpace (Text.cutEnd ";" inside))

def isAllArguments (word : Text) : Bool :=
  let inner := Text.cutEnd "\"" (Text.cutStart "\"" word)
  inner == "$@" || inner == "$\x7b@\x7d"

/-- A range of numbers as a loop that counts. -/
def countingLoop (target : Text) (range : Braces.Range) : Text :=
  let first := Integer.readClamped range.first
  let last := Integer.readClamped range.last
  let step := match range.step.bind Integer.read? with
    | some s => if s == 0 then 1 else if s < 0 then Integer.wrap (-s) else s
    | none => 1
  let down := decide (first > last)
  let sign : Text := if down then "-" else "+"
  let update := if step == 1 then target ++ sign ++ sign
    else target ++ " " ++ sign ++ "= " ++ Text.ofInt step
  "for (" ++ target ++ " = " ++ Text.ofInt first ++ "; " ++ target ++
    (if down then " >= " else " <= ") ++ Text.ofInt last ++ "; " ++ update ++ ") "

/-- The range that is the only item of a loop, unless its bounds are padded. -/
def countingRange? (word : Text) : Option Braces.Range := do
  let range ← (← Braces.body? word) |> Braces.Range.read?
  if Braces.Range.anyPadded [range.first, range.last] then none else some range

mutual

/-- Whether a word has no expansions. -/
def isLiteral : Node → Bool
  | ⟨kind, text, children, _, _, _⟩ =>
    if kind == .string || kind == .concatenation then areLiteral children
    else if kind == .word then !text.any (Text.isOneOf "$`*?[")
    else [Kind.whitespace, .text, .number, .rawString, .braceExpression, .stringContent,
      .token "\""].contains kind

def areLiteral : List Node → Bool
  | [] => true
  | n :: rest => isLiteral n && areLiteral rest

end

/-- The expressions that some fragments are iterated over as. -/
def iteratedOf (c : Compiler) : List FragmentId → Compile (Option (List Text))
  | [] => return some []
  | id :: rest => do
    if ← isFallback id then return none
    let some value ← c.readFirst id [.stringValue, .value] | return none
    return (← iteratedOf c rest).map (value :: ·)

def iterated (c : Compiler) : List (List Node) → Compile (Option (List Text))
  | [] => return some []
  | group :: rest => do
    let some values ← iteratedOf c (← convert c .forHeader group) | return none
    return (← iterated c rest).map (values ++ ·)

/-- A loop over words that have to be split when the program runs. -/
def iteratingLoop (c : Compiler) (target comment : Text) (groups : List (List Node)) :
    Compile (Option Text) := do
  use .iterateOver
  match ← iterated c groups with
  | none => return none
  | some [only] => return some (comment ++ "for (" ++ target ++ " of iterateOver(" ++ only ++ ")) ")
  | some values =>
    let spread := values.map fun value => (("...iterateOver(" : Text) ++ value ++ ")")
    return some (comment ++ "for (" ++ target ++ " of [" ++ Text.join ", " spread ++ "]) ")

/-- The header of a loop over some items. -/
def itemsHeader (c : Compiler) (target comment : Text) (items : List Node) :
    Compile (Option Text) := do
  let unified ← unify c .forHeader items
  if areLiteral items then
    if let some array ← c.read unified .array then
      return some ("for (" ++ target ++ " of " ++ array ++ ") ")
  iteratingLoop c target comment (groups items)

/-- The header of a loop; without items it goes over the arguments of the script. -/
def forHeader (c : Compiler) (n : Node) (header : List Node) (headerText : Text) :
    Compile (Option Text) := do
  let some name := n.child? [.variableName] | return none
  let target ← env name.text
  let overArguments := "for (" ++ target ++ " of Deno.args) "
  match header.dropWhile fun child => child.kind != .token "in" with
  | [] => return some overArguments
  | _ :: rest =>
    let items := rest.filter fun child => child.kind != .token ";"
    let sole := match groups items with
      | [only] => some (textOf only)
      | _ => none
    if (sole.map isAllArguments).getD false then return some overArguments
    match sole.bind countingRange? with
    | some range => return some (countingLoop target range)
    | none =>
      itemsHeader c target ("// " ++ oneLine headerText ++ "\n" ++ n.indent) items

/-- The children before the body of a loop, and the body. -/
def loopParts? (n : Node) : Option (List Node × Node) :=
  (n.child? [.doGroup]).map fun body =>
    (n.children.takeWhile fun child => child.kind != .doGroup, body)

def forStatement (c : Compiler) (n : Node) : Compile FragmentId := do
  let some (header, body) := loopParts? n | giveUp n "for loop without a do group"
  let headerText := Utf8.trim (Text.cutEnd ";" (Utf8.trim (textOf header)))
  if n.kind == .countedForStatement then
    let some clauses := countedHeader? headerText | giveUp n "unrecognised C-style for header"
    let front := "for (" ++ Utf8.trim (← arithmetic clauses) ++ ") "
    statement (front ++ (← doGroup c n.indent body))
  else
    let some front ← forHeader c n header headerText | giveUp n "unsupported for loop"
    statement (front ++ (← doGroup c n.indent body))

def boolText (b : Bool) : Text := if b then "true" else "false"

/-- The condition of a loop that runs while it holds, or until it does. -/
def loopCondition (c : Compiler) (isUntil : Bool) (trimmed : List Node) : Compile Text := do
  let source := Utf8.trim (textOf trimmed)
  if source == "true" || source == ":" then return boolText (!isUntil)
  if source == "false" then return boolText isUntil
  match trimmed.filter fun n => trimmed.length == 1 && n.isAny [.testCommand, .negatedCommand] with
  | [only] =>
    let id ← c.compile only .ifCondition
    let found ← Fragment.readOr c id only (if isUntil then .negation else .condition)
    return found.getD (Js.marker source)
  | _ =>
    log .warn "unsupported loop condition" [("text", source)]
    return Js.marker source

def whileStatement (c : Compiler) (n : Node) : Compile FragmentId := do
  let some (header, body) := loopParts? n | giveUp n "while loop without a do group"
  let isUntil := header.any fun child => child.kind == .token "until"
  let nodes := header.filter fun child => !child.isAny [.token "while", .token "until"]
  let condition ← loopCondition c isUntil (trimSeparators nodes)
  statement ("while (" ++ condition ++ ") " ++ (← doGroup c n.indent body))

/-- The statements between the braces of a group. -/
def insideBraces (nodes : List Node) : List Node :=
  let opened : List Node := match nodes with
    | first :: rest => if first.kind == .token "\x7b" then rest else first :: rest
    | [] => []
  match opened.getLast? with
  | some last => if last.kind == .token "\x7d" then opened.dropLast else opened
  | none => []

def functionReview : Text := "// FIXME: you'll need to custom verify this function usage: "

/-- Enters a function: its name is known from here on, also in its own body. -/
def enterFunction (name : Text) : Compile Unit :=
  modify fun s => { s with functions := name :: s.functions, depth := s.depth + 1 }

def leaveFunction : Compile Unit := modify fun s => { s with depth := s.depth - 1 }

/-- Work on the body of a function. The depth is what it was afterwards, also when the work
fails. -/
def insideFunction (name : Text) (work : Compile α) : Compile α := do
  enterFunction name
  let result ← tryCatch work fun fault => do
    leaveFunction
    throw fault
  leaveFunction
  return result

/-- A function with a scope of its own. -/
def functionDefinition (c : Compiler) (n : Node) : Compile FragmentId := do
  match n.child? [.word], n.child? [.compoundStatement] with
  | some name, some body =>
    let inside ← insideFunction name.text do
      use .makeScope
      block c .functionBody n.indent (insideBraces body.children)
    statement (functionReview ++ name.text ++ "\n" ++ n.indent ++ "async function " ++
      Js.identifier name.text ++
      "(...args) \x7b const \x7b local, env \x7d = makeScope(\x7b args \x7d)\n" ++
      inside ++ "\n" ++ n.indent ++ "\x7d")
  | _, _ => giveUp n "function body must be a \x7b \x7d block"

/-- A group in braces. With one statement it also has the conditions of that statement. -/
def compound (c : Compiler) (context : Context) (n : Node) : Compile FragmentId := do
  let bodyContext := if context.needsStatement then context else .doGroup
  let (lead, trimmed) := blockLead n.indent (insideBraces n.children)
  let members ← trimmed.mapM fun child => return (child, ← c.compile child bodyContext)
  let whole := (Form.statement, Recipe.group members lead n.indent bodyContext)
  match members.filter fun member => !isLayout member.1 with
  | [(_, id)] =>
    if ← isFallback id then new [whole]
    else new [whole, (.condition, .same id .condition), (.negation, .same id .negation)]
  | _ => new [whole]

end ShellToDeno.Compile
