import ShellToDeno.Text

/-!
A shell script as it was read, with the offsets of its pieces in the source. Only the pieces that
the tree of the script shows are kept: a `case`, an arithmetic expression or a process substitution
is just the stretch it covers.
-/
namespace ShellToDeno.Shell

structure Span where
  start : Nat
  stop : Nat
  deriving DecidableEq, Repr

/-- A literal or a name, with the text it stands for. -/
structure Lexeme where
  span : Span
  value : Text
  deriving DecidableEq, Repr

inductive RedirectKind where
  | file
  | document
  | hereString
  deriving DecidableEq, Repr

mutual

inductive Part where
  | literal (lexeme : Lexeme)
  | singleQuoted (span : Span) (dollar : Bool) (value : Text)
  | doubleQuoted (span : Span) (parts : List Part)
  /-- A parameter expansion, braced unless `short`, and the word after its operator. -/
  | parameter (span : Span) (short : Bool) (name : Option Lexeme) (operand : Option Word)
  | substitution (span : Span) (body : List Statement)
  | arithmetic (span : Span)
  | process (span : Span)
  | glob (span : Span)

inductive Word where
  | mk (parts : List Part)

inductive Assignment where
  | mk (span : Span) (name : Lexeme) (indexed : Bool) (array : Option Listing) (value : Option Word)

/-- The elements of an array in parentheses. -/
inductive Listing where
  | mk (span : Span) (elements : List Word)

/-- What follows a declaring keyword. -/
inductive Declared where
  /-- A bare name, and where its declaration ends. -/
  | name (lexeme : Lexeme) (stop : Nat)
  | word (value : Word)
  | assignment (assignment : Assignment)

inductive Redirect where
  | mk (operator : Nat) (number : Option Span) (kind : RedirectKind) (word : Word)

/-- An `elif` or, without a condition, an `else`. -/
inductive Otherwise where
  | mk (start : Nat) (isElse : Bool) (condition body : List Statement)

inductive Command where
  | call (assignments : List Assignment) (arguments : List Word)
  | declare (keyword : Span) (declared : List Declared)
  | block (span : Span) (body : List Statement)
  | subshell (span : Span) (body : List Statement)
  | branch (start fi : Nat) (condition body : List Statement) (clauses : List Otherwise)
  | whileLoop (span : Span) (doStart : Nat) (condition body : List Statement)
  | forEach (span : Span) (doStart : Nat) (name : Lexeme) (items : List Word)
      (body : List Statement)
  | forCount (span : Span) (doStart : Nat) (body : List Statement)
  | pipe (left right : Statement)
  | list (left right : Statement)
  | function (start : Nat) (name : Lexeme) (body : Statement)
  | arithmetic (span : Span)
  | test (span : Span) (words : List Word)
  | cases (span : Span)
  | unsupported (span : Span)
  /-- A keyword in front of a statement, such as `time`. -/
  | keyword (span : Span) (body : Option Statement)

inductive Statement where
  | mk (start : Nat) (negated : Bool) (command : Option Command) (redirects : List Redirect)
      (semicolon : Option Nat) (background : Bool)

end

instance : Inhabited Part := ⟨.arithmetic ⟨0, 0⟩⟩

/-- The body of a here-document, found by the offset of its operator. -/
structure Body where
  operator : Nat
  span : Span
  deriving DecidableEq, Repr

structure Script where
  statements : List Statement
  bodies : List Body

namespace Part

def span : Part → Span
  | .literal lexeme => lexeme.span
  | .singleQuoted span _ _ | .doubleQuoted span _ | .parameter span _ _ _ | .substitution span _
  | .arithmetic span | .process span | .glob span => span

end Part

namespace Word

def parts : Word → List Part
  | mk parts => parts

def start (w : Word) : Nat := (w.parts.head?.map fun p => p.span.start).getD 0

def stop (w : Word) : Nat := (w.parts.getLast?.map fun p => p.span.stop).getD 0

def span (w : Word) : Span := ⟨w.start, w.stop⟩

/-- The text of a word that is one unquoted literal, and nothing for any other. -/
def literal (w : Word) : Text :=
  match w.parts with
  | [.literal lexeme] => lexeme.value
  | _ => []

end Word

namespace Redirect

def operator : Redirect → Nat
  | mk operator _ _ _ => operator

def word : Redirect → Word
  | mk _ _ _ word => word

def start : Redirect → Nat
  | mk operator number _ _ => (number.map Span.start).getD operator

/-- Where a redirect ends, the body of its here-document counted. -/
def stop (bodies : List Body) (r : Redirect) : Nat :=
  match bodies.find? fun b => b.operator == r.operator with
  | some body => body.span.stop
  | none => r.word.stop

end Redirect

namespace Assignment

def span : Assignment → Span
  | mk span _ _ _ _ => span

def isArray : Assignment → Bool
  | mk _ _ indexed array _ => indexed || array.isSome

end Assignment

def Declared.stop : Declared → Nat
  | .name _ stop => stop
  | .word value => value.stop
  | .assignment a => a.span.stop

namespace Statement

def start : Statement → Nat
  | mk start _ _ _ _ _ => start

def negated : Statement → Bool
  | mk _ negated _ _ _ _ => negated

def command : Statement → Option Command
  | mk _ _ command _ _ _ => command

def redirects : Statement → List Redirect
  | mk _ _ _ redirects _ _ => redirects

def semicolon : Statement → Option Nat
  | mk _ _ _ _ semicolon _ => semicolon

def background : Statement → Bool
  | mk _ _ _ _ _ background => background

def withCommand (s : Statement) (command : Command) : Statement :=
  mk s.start s.negated (some command) s.redirects s.semicolon s.background

def withRedirect (s : Statement) (redirect : Redirect) : Statement :=
  mk s.start s.negated s.command (s.redirects ++ [redirect]) s.semicolon s.background

def withNegated (s : Statement) (negated : Bool) : Statement :=
  mk s.start negated s.command s.redirects s.semicolon s.background

def withEnd (s : Statement) (semicolon : Nat) (background : Bool) : Statement :=
  mk s.start s.negated s.command s.redirects (some semicolon) background

end Statement

mutual

/-- Where a statement ends, a separator read with it and here-document bodies counted. -/
def Statement.stop (bodies : List Body) : Statement → Nat
  | .mk _ _ _ _ (some semicolon) _ => semicolon + 1
  | .mk start negated command redirects none _ =>
    let ending := match command with
      | some command => command.stop bodies
      | none => if negated then start + 1 else start
    match redirects.getLast? with
    | some redirect => max ending (redirect.stop bodies)
    | none => ending

def Command.stop (bodies : List Body) : Command → Nat
  | .call assignments arguments =>
    match arguments.getLast? with
    | some word => word.stop
    | none => (assignments.getLast?.map fun a => a.span.stop).getD 0
  | .declare word declared => (declared.getLast?.map Declared.stop).getD word.stop
  | .branch _ fi _ _ _ => fi + 2
  | .block span _ | .subshell span _ | .whileLoop span _ _ _ | .forEach span _ _ _ _
  | .forCount span _ _ | .arithmetic span | .test span _ | .cases span | .unsupported span =>
    span.stop
  | .pipe _ right | .list _ right => right.stop bodies
  | .function _ _ body => body.stop bodies
  | .keyword span none => span.stop
  | .keyword _ (some body) => body.stop bodies

end

def Command.start : Command → Nat
  | .call assignments arguments =>
    match assignments.head? with
    | some assignment => assignment.span.start
    | none => (arguments.head?.map Word.start).getD 0
  | .declare word _ => word.start
  | .branch start _ _ _ _ | .function start _ _ => start
  | .block span _ | .subshell span _ | .whileLoop span _ _ _ | .forEach span _ _ _ _
  | .forCount span _ _ | .arithmetic span | .test span _ | .cases span | .unsupported span
  | .keyword span _ => span.start
  | .pipe left _ | .list left _ => left.start

end ShellToDeno.Shell
