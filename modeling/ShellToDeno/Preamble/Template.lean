import ShellToDeno.Text.Utf8

/-!
Templates for headers: text with actions in double braces. An action prints a value, joins a list,
chooses, repeats, calls a named template, or defines one. Reading and rendering can fail, and a
failure has no text of its own.
-/
namespace ShellToDeno.Template

/-- What a template can refer to. -/
inductive Operand where
  | self
  | field (names : List Text)
  | literal (text : Text)
  deriving DecidableEq, Repr

inductive Expression where
  | operand (value : Operand)
  | join (arguments : List Operand)
  deriving DecidableEq, Repr

inductive Piece where
  | text (value : Text)
  | print (value : Expression)
  | choice (condition : Expression) (yes no : List Piece)
  | each (list : Expression) (body otherwise : List Piece)
  | call (name : Text) (argument : Option Expression)
  deriving Repr

abbrev Definitions := List (Text × List Piece)

/-- A word inside an action. -/
inductive Token where
  | word (name : Text)
  | operand (value : Operand)
  deriving DecidableEq, Repr

namespace Token

def isBlank (b : UInt8) : Bool := b == ' ' || b == '\t' || b == '\n' || b == '\r'

/-- Whether a word may end before the given rest. -/
def mayEnd (rest : Text) : Bool :=
  match rest with
  | [] => false
  | b :: _ => isBlank b || Text.begins "\x7d\x7d" rest

def simpleEscape? (b : UInt8) : Option UInt8 :=
  if b == 'n' then some 10 else if b == 't' then some 9 else if b == 'r' then some 13
  else if b == 'a' then some 7 else if b == 'b' then some 8 else if b == 'f' then some 12
  else if b == 'v' then some 11 else if b == '\\' then some 92 else if b == '"' then some 34
  else none

/-- Reads a string after its opening quote. -/
def quoted? : Text → Option (Text × Text)
  | [] => none
  | Ascii.doubleQuote :: rest => some ([], rest)
  | Ascii.newline :: _ => none
  | [Ascii.backslash] => none
  | Ascii.backslash :: b :: rest =>
    match simpleEscape? b with
    | none => none
    | some value => (quoted? rest).map fun (text, after) => (value :: text, after)
  | b :: rest => (quoted? rest).map fun (text, after) => (b :: text, after)

/-- Reads a string that has no escapes, after its opening backtick. -/
def raw? : Text → Option (Text × Text)
  | [] => none
  | b :: rest =>
    if b == Ascii.backtick then some ([], rest)
    else (raw? rest).map fun (text, after) => (b :: text, after)

/-- The names of a path such as `.a.b`. -/
def fieldNames? (path : Text) : Option (List Text) :=
  match Text.splitOn "." path with
  | [] :: names => if names.all Text.isName then some names else none
  | _ => none

/-- Reads one word; strings may stand next to anything. -/
def next? (t : Text) : Option (Token × Text) :=
  match t with
  | [] => none
  | b :: rest =>
    if b == '"' then (quoted? rest).map fun (text, after) => (.operand (.literal text), after)
    else if b == Ascii.backtick then
      (raw? rest).map fun (text, after) => (.operand (.literal text), after)
    else
      let spelling := t.takeWhile fun b => Text.isWordByte b || b == '.'
      let after := t.drop spelling.length
      if !mayEnd after then none
      else if spelling == "." then some (.operand .self, after)
      else if Text.isName spelling then some (.word spelling, after)
      else (fieldNames? spelling).map fun names => (.operand (.field names), after)

/-- Reads the words of an action up to its end. -/
def action? : Nat → Text → Option (List Token × Text)
  | 0, _ => none
  | fuel + 1, t =>
    match t with
    | [] => none
    | b :: rest =>
      if isBlank b then action? fuel rest
      else match Text.cutStart? "\x7d\x7d" t with
        | some after => some ([], after)
        | none => do
          let (token, after) ← next? t
          let (tokens, rest) ← action? fuel after
          return (token :: tokens, rest)

end Token

/-- The operands of an action that has nothing else. -/
def operands? : List Token → Option (List Operand)
  | [] => some []
  | .operand value :: rest => (operands? rest).map (value :: ·)
  | .word _ :: _ => none

/-- Reads an expression; `join` is the only function. -/
def expression? : List Token → Option Expression
  | [.operand value] => some (.operand value)
  | .word name :: rest => if name == "join" then (operands? rest).map .join else none
  | _ => none

/-- What ends a run of pieces. -/
inductive Ending where
  | text
  | close
  | otherwise
  deriving DecidableEq, Repr

/-- What stands between double braces. -/
inductive Action where
  | comment
  | finish
  | otherwise
  | print (value : Expression)
  | choice (condition : Expression)
  | each (list : Expression)
  | call (name : Text) (argument : Option Expression)
  | define (name : Text)

def namedArgument? : List Token → Option (Option Expression)
  | [] => some none
  | tokens => (expression? tokens).map some

namespace Action

def ofTokens? : List Token → Option Action
  | .word word :: rest =>
    if word == "end" then if rest.isEmpty then some finish else none
    else if word == "else" then if rest.isEmpty then some Action.otherwise else none
    else if word == "if" then (expression? rest).map choice
    else if word == "range" then (expression? rest).map each
    else if word == "template" then
      match rest with
      | .operand (.literal name) :: arguments => (namedArgument? arguments).map (call name)
      | _ => none
    else if word == "define" then
      match rest with
      | [.operand (.literal name)] => some (define name)
      | _ => none
    else (expression? (.word word :: rest)).map print
  | tokens => (expression? tokens).map print

/-- Reads an action after its opening braces. -/
def read? (t : Text) : Option (Action × Text) :=
  match Text.cutStart? "/*" t with
  | some inside => do
    let (_, after) ← Text.cut? "*/" inside
    return (comment, ← Text.cutStart? "\x7d\x7d" after)
  | none => do
    let (tokens, after) ← Token.action? (t.length + 1) t
    return (← ofTokens? tokens, after)

end Action

/-- A run of pieces, the templates defined in it, and what follows it. -/
structure Run where
  pieces : List Piece
  defined : Definitions
  ending : Ending
  rest : Text

def Run.cons (piece : Piece) (run : Run) : Run := { run with pieces := piece :: run.pieces }

/-- Reads the two parts of a choice or repetition. -/
def branches? (read : Text → Option Run) (t : Text) : Option (List Piece × List Piece × Text) := do
  let first ← read t
  match first.ending with
  | .text => none
  | .close => return (first.pieces, [], first.rest)
  | .otherwise =>
    let second ← read first.rest
    if second.ending == .close then return (first.pieces, second.pieces, second.rest) else none

/-- Puts a text in front of a run. -/
def Run.lead (before : Text) (run : Run) : Run :=
  if before.isEmpty then run else run.cons (.text before)

/-- Reads pieces up to an end mark or the end of the text. Templates are defined at the top only. -/
def pieces? : Nat → Bool → Text → Option Run
  | 0, _, _ => none
  | fuel + 1, top, t =>
    match Text.cut? "\x7b\x7b" t with
    | none => some (Run.lead t ⟨[], [], .text, []⟩)
    | some (before, inside) =>
      match Action.read? inside with
      | none => none
      | some (.comment, after) => (pieces? fuel top after).map (.lead before)
      | some (.finish, after) => some (Run.lead before ⟨[], [], .close, after⟩)
      | some (.otherwise, after) => some (Run.lead before ⟨[], [], .otherwise, after⟩)
      | some (.print value, after) => do
        return ((← pieces? fuel top after).cons (.print value)).lead before
      | some (.call name argument, after) => do
        return ((← pieces? fuel top after).cons (.call name argument)).lead before
      | some (.choice condition, after) => do
        let (yes, no, rest) ← branches? (pieces? fuel false) after
        return ((← pieces? fuel top rest).cons (.choice condition yes no)).lead before
      | some (.each list, after) => do
        let (body, otherwise, rest) ← branches? (pieces? fuel false) after
        return ((← pieces? fuel top rest).cons (.each list body otherwise)).lead before
      | some (.define name, after) => do
        if !top then none
        let body ← pieces? fuel false after
        if body.ending != .close then none
        let run ← pieces? fuel top body.rest
        return { run with defined := (name, body.pieces) :: run.defined }.lead before

/-- Whether pieces are nothing but white space. -/
def isBlank (pieces : List Piece) : Bool :=
  pieces.all fun
    | .text value => (Utf8.trim value).isEmpty
    | _ => false

/-- Adds a template; one that is blank does not take the place of another. -/
def define (definitions : Definitions) (name : Text) (pieces : List Piece) : Definitions :=
  if isBlank pieces && (definitions.lookup name).isSome then definitions
  else (name, pieces) :: definitions

/-- Reads a template and what it defines. -/
def read? (name : Text) (definitions : Definitions) (t : Text) : Option Definitions := do
  let run ← pieces? (t.length + 1) true t
  if run.ending != .text then none
  let named := run.defined.filter fun d => !isBlank d.2
  if (named.map Prod.fst).eraseDups.length != named.length then none
  return (run.defined ++ [(name, run.pieces)]).foldl
    (fun ds (name, pieces) => define ds name pieces) definitions

end ShellToDeno.Template
