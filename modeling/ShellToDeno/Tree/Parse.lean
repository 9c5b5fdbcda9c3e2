import ShellToDeno.Tree.Layout
import ShellToDeno.Shell.Reader

/-! The tree of a script that was read. -/
namespace ShellToDeno

open Shell

namespace Source

/-- The stretch of a here-document body up to the end of its closing line. -/
def bodyStretch (text : Text) (body : Body) : Nat × Nat :=
  let stop := body.span.stop
  (body.span.start, stop + ((text.drop stop).takeWhile (· != Ascii.newline)).length)

def ofScript (text : Text) (script : Script) : Source :=
  ⟨text, script.bodies.map (bodyStretch text)⟩

def isBraceByte (b : UInt8) : Bool :=
  !(b == Ascii.openBrace || b == Ascii.closeBrace || isSpace b || b == 12)

/-- The length of a brace expression at the start of a text. -/
def braceLength? : Text → Option Nat
  | Ascii.openBrace :: rest =>
    let body := rest.takeWhile isBraceByte
    match rest.drop body.length with
    | Ascii.closeBrace :: _ =>
      if body.elem (',' : Char).toUInt8 || Text.contains body ".." then
        some (body.length + 2) else none
    | _ => none
  | _ => none

def literalPiece (s : Source) (start stop : Nat) : List Node :=
  let text := s.text.slice start stop
  [s.leaf (if Text.isDigits text then .number else .word) start stop]

/-- Cuts a literal around its brace expressions; `from_` is where the piece before the offset
starts, and the bytes of the expression just met are skipped. -/
def literalFrom (s : Source) : Nat → Nat → Nat → Text → List Node
  | _, from_, offset, [] => if from_ < offset then s.literalPiece from_ offset else []
  | skip + 1, _, offset, _ :: rest => s.literalFrom skip (offset + 1) (offset + 1) rest
  | 0, from_, offset, b :: rest =>
    match braceLength? (b :: rest) with
    | some length =>
      (if from_ < offset then s.literalPiece from_ offset else []) ++
        s.leaf .braceExpression offset (offset + length) ::
          s.literalFrom (length - 1) (offset + 1) (offset + 1) rest
    | none => s.literalFrom 0 from_ (offset + 1) rest

def literal (s : Source) (span : Span) : List Node :=
  match s.literalFrom 0 span.start span.start (s.text.slice span.start span.stop) with
  | [] => s.literalPiece span.start span.stop
  | pieces => pieces

def isSpecialName (name : Text) : Bool :=
  Text.isDigits name || match name with
    | [b] => Text.isOneOf "@*#?$!-" b
    | _ => false

def parameterName (s : Source) (name : Lexeme) : Node :=
  s.leaf (if isSpecialName name.value then .specialVariableName else .variableName)
    name.span.start name.span.stop

/-- A word of one piece is that piece, any other a concatenation. -/
def joinPieces (s : Source) (span : Span) : List Node → Node
  | [piece] => piece
  | pieces => s.build .concatenation span.start span.stop pieces

def redirectName : RedirectKind → Kind
  | .file => .fileRedirect
  | .document => .heredocRedirect
  | .hereString => .herestringRedirect

/-- Whether words form a test in single brackets. -/
def isBracketTest (arguments : List Word) : Bool :=
  (arguments.head?.map Word.literal) == some "[" && arguments.length ≥ 2 &&
    (arguments.getLast?.map Word.literal) == some "]"

/-- The end of each clause of a branch: where the next one starts, or the closing word. -/
def clauseEnds (fi : Nat) : List Otherwise → List Nat
  | [] => []
  | [_] => [fi]
  | _ :: next :: rest =>
    (match next with | .mk start _ _ _ => start) :: clauseEnds fi (next :: rest)

/-- A command with redirects around it. -/
def withRedirects (s : Source) (command : Option Node) (redirects : List Node)
    (start stop : Nat) : Option Node :=
  if redirects.isEmpty then command else
  let (start, stop) := match command with
    | some n => (min start n.start.toNat, max stop n.stop.toNat)
    | none => (start, stop)
  some (s.build .redirectedStatement start stop (command.toList ++ redirects))

variable (s : Source) (bodies : List Body)

/-- Whether a statement is nothing but a pipe, so that its segments belong to the chain around
it. -/
def isChained : Statement → Bool
  | .mk _ false (some (.pipe _ _)) [] _ false => true
  | _ => false

/-- A statement from its command and its redirects, with which it ends; a separator after it stays
with what the statement is part of. -/
def assemble (whole : Statement) (command : Option Node) (redirects : List Node) : Option Node :=
  match whole with
  | .mk start negated _ redirections _ background =>
    if background then some (s.leaf .backgroundStatement start (whole.stop bodies)) else
    let first := (redirections.head?.map Redirect.start).getD 0
    let last := (redirections.getLast?.map fun r => r.word.stop).getD 0
    match s.withRedirects command redirects first last with
    | none => none
    | some n =>
      if negated then some (s.build .negatedCommand start n.stop.toNat [n]) else some n

mutual

def part (quoted : Bool) : Part → List Node
  | .literal lexeme =>
    if quoted then [s.leaf .stringContent lexeme.span.start lexeme.span.stop]
    else s.literal lexeme.span
  | .singleQuoted span dollar _ =>
    [s.leaf (if dollar then .ansiString else .rawString) span.start span.stop]
  | .doubleQuoted span parts => [s.build .string span.start span.stop (quotedParts parts)]
  | .parameter span short name operand =>
    let head := name.toList.map s.parameterName
    let tail := match operand with
      | some value => if value.parts.isEmpty then [] else [word value]
      | none => []
    [s.build (if short then .simpleExpansion else .expansion) span.start span.stop (head ++ tail)]
  | .substitution span body =>
    [s.build .commandSubstitution span.start span.stop (statements body)]
  | .arithmetic span => [s.leaf .arithmeticExpansion span.start span.stop]
  | .process span => [s.leaf .processSubstitution span.start span.stop]
  | .glob span => [s.leaf .word span.start span.stop]

def quotedParts : List Part → List Node
  | [] => []
  | p :: rest => part true p ++ quotedParts rest

def plainParts : List Part → List Node
  | [] => []
  | p :: rest => part false p ++ plainParts rest

def word : Word → Node
  | .mk parts => s.joinPieces (Word.mk parts).span (plainParts parts)

def words : List Word → List Node
  | [] => []
  | w :: rest => word w :: words rest

def listing : Listing → Node
  | .mk span elements => s.build .array span.start span.stop (words elements)

def assignment : Assignment → Node
  | .mk span name _ array value =>
    let assigned := match array, value with
      | some elements, _ => [listing elements]
      | none, some value => [word value]
      | none, none => []
    s.build .variableAssignment span.start span.stop
      (s.leaf .variableName name.span.start name.span.stop :: assigned)

def assignments : List Assignment → List Node
  | [] => []
  | a :: rest => assignment a :: assignments rest

def declared : Declared → Node
  | .name lexeme _ => s.leaf .variableName lexeme.span.start lexeme.span.stop
  | .word value => word value
  | .assignment value => assignment value

def declarations : List Declared → List Node
  | [] => []
  | d :: rest => declared d :: declarations rest

def redirect : Redirect → Node
  | .mk operator number kind target =>
    let head := number.toList.map fun span => s.leaf .fileDescriptor span.start span.stop
    s.build (redirectName kind) ((number.map Span.start).getD operator) target.stop
      (head ++ [word target])

def redirects : List Redirect → List Node
  | [] => []
  | r :: rest => redirect r :: redirects rest

def clause (stop : Nat) : Otherwise → Node
  | .mk start isElse condition body =>
    s.build (if isElse then .elseClause else .elifClause) start stop
      (statements condition ++ statements body)

def clauses : List Nat → List Otherwise → List Node
  | stop :: stops, c :: rest => clause stop c :: clauses stops rest
  | _, _ => []

/-- The parts of a call, the name of the command being the first word. -/
def call (assigned : List Node) (span : Span) : List Word → Node
  | [] =>
    match assigned with
    | [only] => only
    | _ => s.build .variableAssignments span.start span.stop assigned
  | name :: arguments =>
    if isBracketTest (name :: arguments) then
      s.build .testCommand span.start span.stop (assigned ++ (words arguments).dropLast)
    else if name.literal == "unset" || name.literal == "unsetenv" then
      s.build .unsetCommand span.start span.stop (assigned ++ words arguments)
    else
      let first := word name
      let head := s.build .commandName first.start.toNat first.stop.toNat [first]
      s.build .command span.start span.stop (assigned ++ head :: words arguments)

/-- The segments of a chain of pipes. -/
def segments : Statement → List Node
  | .mk start negated inner redirections semicolon background =>
    let whole := Statement.mk start negated inner redirections semicolon background
    match inner with
    | some c =>
      if isChained whole then piped c
      else (s.assemble bodies whole (some (command c)) (redirects redirections)).toList
    | none => (s.assemble bodies whole none (redirects redirections)).toList

/-- The segments on both sides of a pipe. -/
def piped : Command → List Node
  | .pipe left right => segments left ++ segments right
  | _ => []

def command : Command → Node
  | .call assigned arguments =>
    let whole := Command.call assigned arguments
    call (assignments assigned) ⟨whole.start, whole.stop bodies⟩ arguments
  | .declare keyword declared =>
    s.build .declarationCommand keyword.start ((Command.declare keyword declared).stop bodies)
      (declarations declared)
  | .branch start fi condition body others =>
    s.build .ifStatement start (fi + 2)
      (statements condition ++ statements body ++ clauses (clauseEnds fi others) others)
  | .whileLoop span doStart condition body =>
    s.build .whileStatement span.start span.stop
      (statements condition ++ [s.build .doGroup doStart span.stop (statements body)])
  | .forEach span doStart name items body =>
    s.build .forStatement span.start span.stop
      (s.leaf .variableName name.span.start name.span.stop :: words items ++
        [s.build .doGroup doStart span.stop (statements body)])
  | .forCount span doStart body =>
    s.build .countedForStatement span.start span.stop
      [s.build .doGroup doStart span.stop (statements body)]
  | .block span body => s.build .compoundStatement span.start span.stop (statements body)
  | .subshell span body => s.build .subshell span.start span.stop (statements body)
  | .pipe left right =>
    let found := segments left ++ segments right
    let stop := match found.getLast? with
      | some last => last.stop.toNat
      | none => right.stop bodies
    s.build .pipeline left.start stop found
  | .list left right =>
    let second := statement right
    let stop := match second with
      | some n => n.stop.toNat
      | none => right.stop bodies
    s.build .list left.start stop ((statement left).toList ++ second.toList)
  | .function start name body =>
    s.build .functionDefinition start (body.stop bodies)
      (s.leaf .word name.span.start name.span.stop :: (statement body).toList)
  | .arithmetic span => s.leaf .testCommand span.start span.stop
  | .test span operands => s.build .testCommand span.start span.stop (words operands)
  | .cases span => s.leaf .caseStatement span.start span.stop
  | .unsupported span => s.leaf .unsupportedStatement span.start span.stop
  | .keyword span body =>
    s.leaf .unsupportedStatement span.start ((Command.keyword span body).stop bodies)

def statement : Statement → Option Node
  | .mk start negated inner redirections semicolon background =>
    let whole := Statement.mk start negated inner redirections semicolon background
    let found := match inner with
      | some c => some (command c)
      | none => none
    s.assemble bodies whole found (redirects redirections)

def statements : List Statement → List Node
  | [] => []
  | x :: rest => (statement x).toList ++ statements rest

end

end Source

/-- The tree of a script that was read from a text. -/
def Node.ofScript (text : Text) (script : Script) : Node :=
  let source := Source.ofScript text script
  source.build .program 0 text.length (source.statements script.bodies script.statements)

/-- Reads a script into its tree. -/
def Node.parse (text : Text) : Except (Refusal Diagnosis) Node :=
  match Script.read text with
  | .ok script => .ok (.ofScript text script)
  | .error (.rejected e) => .error (.rejected (e.diagnose text))
  | .error (.broken fault) => .error (.broken fault)

end ShellToDeno
