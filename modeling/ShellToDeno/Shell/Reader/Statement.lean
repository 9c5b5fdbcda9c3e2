import ShellToDeno.Shell.Reader.Compound

/-!
Statements. A statement is a list of pipelines joined by `&&` and `||`, a pipeline a list of
commands joined by `|`; both group from the left.
-/
namespace ShellToDeno.Shell.Read

/-- A statement without anything in it. -/
def emptyStatement (start : Nat) : Statement := .mk start false none [] none false

structure CallState where
  statement : Statement
  /-- Each with the place where it starts. -/
  assignments : List (Place × Assignment)
  arguments : List Word

/-- One step of a simple command: a word, an assignment before all words, or a redirect. -/
def callStep (g : Grammar) (s : CallState) : Read (CallState ⊕ CallState) := do
  let found ← token
  if found.isSeparator then return .inr s
  if found.isRedirect then
    return .inl { s with statement := s.statement.withRedirect (← redirect g) }
  if s.arguments.isEmpty && (← atAssignment) then
    return .inl { s with assignments := s.assignments ++ [← assignment g] }
  if found == .litWord then
    return .inl { s with arguments := s.arguments ++ [.mk [← literalPart g]] }
  if found == .backquote && (← closesBackquote) then return .inr s
  if found == .lit || found == .backquote || found.startsPart then
    match ← g.word with
    | some word => return .inl { s with arguments := s.arguments ++ [word] }
    | none => return .inr s
  if found == .doubleLeftParen then failHere .arithmeticInCommand
  if found == .rightParen && (← get).mode == .subshell then return .inr s
  failHere (.notInCommand found)

/-- The rest of a simple command. -/
def call (g : Grammar) (s : CallState) : Read Statement := do
  let s ← loop (callStep g) g.limit s
  if !s.arguments.isEmpty then
    if let some (start, _) := s.assignments.find? fun entry => entry.2.isArray then
      fail start .inlineArray
  if s.assignments.isEmpty && s.arguments.isEmpty then return s.statement
  return s.statement.withCommand (.call (s.assignments.map Prod.snd) s.arguments)

def declaredStep (g : Grammar) (keyword : Text) (declared : List Declared) :
    Read (List Declared ⊕ List Declared) := do
  if (← atStop) || (← token).isRedirect then return .inr declared.reverse
  if ← atAssignment then return .inl ((← declaredAssignment g) :: declared)
  if ((← get).equals.getD 0) > 0 then failHere .variableName
  if (← token) == .litWord && Text.isName (← value) then
    if let some name ← g.literal? then return .inl (.name name name.span.stop :: declared)
  match ← g.word with
  | some word => return .inl (.word word :: declared)
  | none => failHere (.needsAfter keyword "names or assignments")

def declareCommand (g : Grammar) : Read Command := do
  let keyword ← lexeme (← pos) (← value)
  g.next
  let declared ← loop (declaredStep g keyword.value) g.limit []
  return .declare keyword.span declared

def letStep (g : Grammar) (stop : Option Nat) : Read (Option Nat ⊕ Option Nat) := do
  if (← atStop) || (← token).isRedirect then return .inr stop
  match ← g.arithmetic .comma true with
  | none => return .inr stop
  | some term => return .inl (some term.stop)

def letCommand (g : Grammar) : Read Command := do
  let start ← pos
  let stop ← nested .arithmeticLet do
    g.next
    match ← loop (letStep g) g.limit none with
    | some stop => pure stop
    | none => failNoExpression start "let"
  return .unsupported ⟨start.offset, stop⟩

/-- A function from its body on. -/
def functionFrom (g : Grammar) (start : Place) (name : Lexeme) : Read Command := do
  discard <| g.got .newline
  match ← g.statement false false with
  | some body => return .function start.offset name body
  | none => fail start (.needsAfter "foo()" "a statement")

def functionCommand (g : Grammar) : Read Command := do
  let start ← pos
  g.next
  if (← token) != .litWord then fail start (.needsAfter "function" "a name")
  let place ← pos
  let name ← lexeme place (← value)
  g.next
  if ← g.got .leftParen then g.follow place "foo(" .rightParen
  functionFrom g start name

def timeCommand (g : Grammar) : Read Command := do
  let start ← pos
  g.next
  discard <| g.gotWord "-p"
  return .keyword ⟨start.offset, start.offset + 4⟩
    (← g.pipeline (emptyStatement (← pos).offset) false)

/-- Whether a command that is not a simple one starts here. -/
def atCompound : Read Bool := do
  match ← token with
  | .leftParen | .doubleLeftParen => return true
  | .litWord =>
    return (List.map Text.ofString
      ["\x7b", "if", "while", "until", "for", "case", "[[", "coproc", "let", "function", "declare",
       "local", "export", "readonly", "typeset", "nameref"]).contains (← value)
  | _ => return false

/-- The name of a coprocess is the start of its command when that is a simple one. -/
def withName (name : Word) (body : Statement) : Statement :=
  match body.command with
  | some (.call assignments arguments) => body.withCommand (.call assignments (name :: arguments))
  | _ => body

def coprocessCommand (g : Grammar) : Read Command := do
  let start ← pos
  let span : Span := ⟨start.offset, start.offset⟩
  g.next
  if ← atCompound then return .keyword span (← g.pipeline (emptyStatement (← pos).offset) false)
  let name ← g.word
  let body ← g.pipeline (emptyStatement (← pos).offset) false
  match name, body with
  | none, none => fail start .coprocess
  | some name, none =>
    return .keyword span (some ((emptyStatement name.start).withCommand (.call [] [name])))
  | none, some body => return .keyword span (some body)
  | some name, some body => return .keyword span (some (withName name body))

def misplacedWords : List (Text × Text) :=
  List.map (fun (word, place) => (Text.ofString word, Text.ofString place))
    [("\x7d", "to close a block"), ("then", "in an if"), ("elif", "in an if"),
     ("fi", "to end an if"), ("do", "in a loop"), ("done", "to end a loop"),
     ("esac", "to end a case"), ("]]", "to close a test")]

/-- The productions that a reserved word starts. -/
def reservedWords (g : Grammar) : List (Text × Read Command) :=
  List.map (fun (word, command) => (Text.ofString word, command))
    [("\x7b", block g), ("if", branch g), ("while", whileLoop g "while"),
     ("until", whileLoop g "until"), ("for", forLoop g), ("case", caseCommand g),
     ("[[", testCommand g), ("let", letCommand g), ("function", functionCommand g),
     ("declare", declareCommand g), ("local", declareCommand g), ("export", declareCommand g),
     ("readonly", declareCommand g), ("typeset", declareCommand g), ("nameref", declareCommand g),
     ("time", timeCommand g), ("coproc", coprocessCommand g), ("select", selectLoop g)]

/-- A statement that starts with an unquoted word: a reserved one, a function or a call. -/
def wordStatement (g : Grammar) (s : Statement) : Read Statement := do
  let word ← value
  if let some place := misplacedWords.lookup word then failHere (.misplacedWord word place)
  if word == "!" && !s.negated then failHere .negationInside
  if let some command := (reservedWords g).lookup word then return s.withCommand (← command)
  if ← atAssignment then return ← call g ⟨s, [← assignment g], []⟩
  let place ← pos
  let name ← lexeme place word
  g.next
  if ← g.got .leftParen then
    g.follow place "foo(" .rightParen
    return s.withCommand (← functionFrom g place name)
  call g ⟨s, [], [.mk [.literal name]]⟩

/-- A statement that starts with a word of any other kind. -/
def partStatement (g : Grammar) (s : Statement) : Read (Option Statement) := do
  if ← atAssignment then return some (← call g ⟨s, [← assignment g], []⟩)
  let place ← pos
  let some word ← g.word | return none
  if ← g.got .leftParen then fail place .functionName
  return some (← call g ⟨s, [], [word]⟩)

/-- The first command of a pipeline. -/
def firstCommand (g : Grammar) (s : Statement) : Read (Option Statement) := do
  let found ← token
  if found == .litWord then return some (← wordStatement g s)
  if found.isRedirect then return some (← call g ⟨s.withRedirect (← redirect g), [], []⟩)
  if found == .backquote && (← closesBackquote) then return none
  if found == .backquote || found == .lit || found.startsPart then return ← partStatement g s
  if found == .leftParen then return some (s.withCommand (← subshell g))
  if found == .doubleLeftParen then return some (s.withCommand (← arithmeticCommand g))
  return none

def trailingRedirects (g : Grammar) (s : Statement) : Read (Statement ⊕ Statement) := do
  if (← token).isRedirect then return .inl (s.withRedirect (← redirect g))
  return .inr s

/-- Goes on after `|`; a negation moves from the first command to the whole pipeline. -/
def pipelineStep (g : Grammar) (single : Bool) (left : Statement) :
    Read (Statement ⊕ Statement) := do
  let operator ← token
  if (operator != .or && operator != .orAnd) || single then return .inr left
  let start ← pos
  g.next
  discard <| g.got .newline
  match ← g.pipeline (emptyStatement (← pos).offset) true with
  | none => fail start (.needsAfter operator.text "a statement")
  | some right =>
    let whole := (emptyStatement left.start).withCommand (.pipe (left.withNegated false) right)
    return .inl (whole.withNegated left.negated)

def pipeline (g : Grammar) (s : Statement) (single : Bool) : Read (Option Statement) := do
  let some first ← firstCommand g s | return none
  let first ← loop (trailingRedirects g) g.limit first
  return some (← loop (pipelineStep g single) g.limit first)

def listStep (g : Grammar) (single : Bool) (left : Statement) : Read (Statement ⊕ Statement) := do
  let operator ← token
  if (operator != .andAnd && operator != .orOr) || single then return .inr left
  let start ← pos
  g.next
  discard <| g.got .newline
  match ← g.statement false true with
  | none => fail start (.needsAfter operator.text "a statement")
  | some right => return .inl ((emptyStatement left.start).withCommand (.list left right))

def negation (g : Grammar) (start : Place) : Read Unit := do
  if ← atStop then fail start .negationAlone
  if (← g.gotWord "!").isSome then fail start .negationTwice

/-- Reads the separator after a statement. -/
def statementEnd (g : Grammar) (s : Statement) : Read Statement := do
  let stop ← pos
  if ← g.got .semicolon then return s.withEnd stop.offset false
  if ← g.got .and then return s.withEnd stop.offset true
  return s

def statement (g : Grammar) (readEnd single : Bool) : Read (Option Statement) := do
  let start ← pos
  let negated := (← g.gotWord "!").isSome
  if negated then negation g start
  let some first ← g.pipeline ((emptyStatement start.offset).withNegated negated) false
    | return none
  let whole ← loop (listStep g single) g.limit first
  if readEnd then return some (← statementEnd g whole) else return some whole

/-- Why no statement starts here. -/
def failStart {α : Type} : Read α := do
  match ← token with
  | .rightParen => failHere .strayParen
  | t =>
    if [Token.semicolon, .and, .or, .andAnd, .orOr].contains t then failHere (.leadingOperator t)
    else failHere (.badStart t)

/-- Whether a statement list ends at the current token. -/
def endsStatements (stops : List Text) : Read Bool := do
  let s ← get
  match s.token with
  | .eof => return true
  | .litWord => return stops.contains s.value
  | .rightParen => return s.mode == .subshell
  | .backquote => closesBackquote
  | t =>
    if !t.endsItem then return false
    if s.mode == .caseItem then return true
    failHere (.outsideCase t)

structure StatementsState where
  statements : List Statement
  separated : Bool

def statementsStep (g : Grammar) (stops : List Text) (s : StatementsState) :
    Read (StatementsState ⊕ List Statement) := do
  if (← token) == .eof then return .inr s.statements.reverse
  let newline ← g.got .newline
  let separated := newline || s.separated
  if (← token) != .eof && (← endsStatements stops) then return .inr s.statements.reverse
  if !separated then failHere .unseparated
  if (← token) == .eof then return .inr s.statements.reverse
  match ← g.statement true false with
  | none => failStart
  | some statement => return .inl ⟨statement :: s.statements, statement.semicolon.isSome⟩

def statements (g : Grammar) (stops : List Text) : Read (List Statement) :=
  loop (statementsStep g stops) g.limit ⟨[], true⟩

end ShellToDeno.Shell.Read
