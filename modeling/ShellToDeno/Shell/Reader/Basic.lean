import ShellToDeno.Shell.Cursor
import ShellToDeno.Shell.Script

/-!
The state of reading a script: one token ahead of the grammar, one character ahead of the token.
How characters group into tokens depends on the mode, the innermost construct that is open.
-/
namespace ShellToDeno.Shell

inductive Mode where
  | plain | subshell | backquoted | doubleQuoted
  | documentWord | documentBody | documentBodyTabs
  | arithmeticExpansion | arithmeticLet | arithmeticCommand | arithmeticBracket
  | test | testRegex
  | caseItem
  | parameterName | parameterSlice | parameterReplace | parameterWord
  | arrayElements
  deriving DecidableEq, Repr

namespace Mode

/-- Blanks belong to the text. -/
def keepsBlanks : Mode → Bool
  | .parameterReplace | .doubleQuoted | .documentBody | .documentBodyTabs | .parameterWord => true
  | _ => false

/-- Tokens are those of commands. -/
def isRegular : Mode → Bool
  | .plain | .subshell | .backquoted | .documentWord | .caseItem | .arrayElements | .test => true
  | _ => false

def isArithmetic : Mode → Bool
  | .arithmeticExpansion | .arithmeticLet | .arithmeticCommand | .arithmeticBracket
  | .parameterSlice => true
  | _ => false

def isParameterHead : Mode → Bool
  | .parameterName | .parameterSlice => true
  | _ => false

def isParameter (m : Mode) : Bool :=
  m.isParameterHead || m == .parameterReplace || m == .parameterWord || m == .arithmeticBracket

def isDocument (m : Mode) : Bool := m == .documentBody || m == .documentBodyTabs

end Mode

/-- A here-document whose body is still to come. -/
structure Pending where
  operator : Nat
  start : Place
  tabbed : Bool
  word : Word

structure ReadState where
  cursor : Cursor
  token : Token
  /-- Text of the last literal. -/
  value : Text
  /-- Where the token starts. -/
  pos : Place
  /-- Whether blanks stood before the token. -/
  spaced : Bool
  /-- Place of the first equals sign in the last unquoted literal. -/
  equals : Option Nat
  mode : Mode
  pending : List Pending
  /-- Pending here-documents that belong to an outer construct. -/
  buried : Nat
  /-- Closing lines of the open here-documents, the innermost first; none once it was met. -/
  stops : List (Option Text)
  inStopWord : Bool
  regexParens : Int
  regexFirst : Bool
  bodies : List Body

abbrev Read := StateT ReadState (Except (Refusal SyntaxError))

namespace Read

def fail {α : Type} (place : Place) (cause : Cause) : Read α := throw (.rejected ⟨place, cause⟩)

def give {α : Type} : Except Fault α → Read α
  | .ok found => return found
  | .error fault => throw (.broken fault)

/-- Fails at the current token. -/
def failHere {α : Type} (cause : Cause) : Read α := do fail (← get).pos cause

def rune : Read Rune := return (← get).cursor.rune

def token : Read Token := return (← get).token

def value : Read Text := return (← get).value

def pos : Read Place := return (← get).pos

/-- Where the character stands that the cursor is on. -/
def nextPos : Read Place := return (← get).cursor.place

def advance : Read Unit := do
  let s ← get
  set { s with cursor := ← s.cursor.advance }

/-- Moves on and gives the character then under the cursor. -/
def advanced : Read Rune := do advance; rune

def setToken (token : Token) : Read Unit := modify fun s => { s with token }

def setMode (mode : Mode) : Read Unit := modify fun s => { s with mode }

/-- A literal from `start` up to the cursor. -/
def lexeme (start : Place) (value : Text) : Read Lexeme :=
  return ⟨⟨start.offset, (← nextPos).offset⟩, value⟩

/-- Repeats `body` until it gives a result. -/
def loop {σ α : Type} (body : σ → Read (σ ⊕ α)) : Nat → σ → Read α
  | 0, _ => throw (.broken .exhausted)
  | fuel + 1, s => do
    match ← body s with
    | .inl s => loop body fuel s
    | .inr result => return result

/-- Runs part of the grammar inside a construct with its own mode and here-documents. -/
def nested {α : Type} (mode : Mode) (body : Read α) : Read α := do
  let outer ← get
  modify fun s => { s with mode, buried := s.pending.length }
  let result ← body
  modify fun s => { s with mode := outer.mode, buried := outer.buried }
  return result

def inMode {α : Type} (mode : Mode) (body : Read α) : Read α := do
  let outer := (← get).mode
  setMode mode
  let result ← body
  setMode outer
  return result

def closesBackquote : Read Bool := return (← get).cursor.closesBackquote

/-- Whether the current token ends a command. -/
def atStop : Read Bool := do
  match ← token with
  | .rightParen => return true
  | .backquote => closesBackquote
  | t => return t.isSeparator

def atWord (word : Text) : Read Bool := return (← token) == .litWord && (← value) == word

end Read

/-- What a term of an arithmetic expression can be assigned to, and where it ends. -/
structure Term where
  stop : Nat
  isName : Bool

/-- The words of a test, and whether it is just one word. -/
structure TestTerm where
  words : List Word
  isWord : Bool

/-- Where an arithmetic expression is entered. -/
inductive Precedence where
  | comma | assign | ternary | power | unary | value
  deriving DecidableEq, Repr

/-- The parts of the grammar that call each other. -/
structure Grammar where
  /-- More rounds than any loop over the source needs. -/
  limit : Nat
  next : Read Unit
  word : Read (Option Word)
  /-- Statements up to a closing token or one of the given words. -/
  statements : List Text → Read (List Statement)
  /-- One statement; its separator is read with `readEnd`, and `single` stops before `&&`. -/
  statement : (readEnd single : Bool) → Read (Option Statement)
  /-- The rest of a pipeline after its start and negation; `single` stops before `|`. -/
  pipeline : Statement → (single : Bool) → Read (Option Statement)
  arithmetic : Precedence → (compact : Bool) → Read (Option Term)
  test : Read (Option TestTerm)

namespace Grammar

open Read

variable (g : Grammar)

def got (expected : Token) : Read Bool := do
  if (← token) == expected then g.next; return true else return false

/-- Passes a reserved word; its place is given if it was there. -/
def gotWord (word : Text) : Read (Option Place) := do
  let start ← pos
  if ← atWord word then g.next; return some start else return none

def follow (start : Place) (left : Text) (expected : Token) : Read Unit := do
  if !(← g.got expected) then fail start (.needsAfter left expected.text)

def followWord (start : Place) (left word : Text) : Read Place := do
  match ← g.gotWord word with
  | some place => return place
  | none => fail start (.needsAfter left ("\"" ++ word ++ "\""))

/-- A statement list after a keyword; a newline or a semicolon may stand for an empty one. -/
def followStatements (left : Text) (start : Place) (stops : List Text) : Read (List Statement) := do
  if ← g.got .semicolon then return []
  let newline ← g.got .newline
  let statements ← g.statements stops
  if statements.isEmpty && !newline then fail start (.needsAfter left "a statement list")
  return statements

def requireWord (operator : Text) (start : Place) : Read Word := do
  match ← g.word with
  | some word => return word
  | none => fail start (.needsAfter operator "a word")

/-- Passes the word that ends a compound command and gives its offset. -/
def endWord (start : Place) (name ending : Text) : Read Nat := do
  match ← g.gotWord ending with
  | some place => return place.offset
  | none => fail start (.needsEnd name ending)

/-- Passes a closing token and gives its offset. -/
def matched (start : Place) (left : Text) (right : Token) : Read Nat := do
  let place ← pos
  if ← g.got right then return place.offset
  fail start (.unmatched (← token) left right.text)

/-- The literal that is the current token, if it is one. -/
def literal? : Read (Option Lexeme) := do
  match ← token with
  | .lit | .litWord | .litRedirect =>
    let found ← lexeme (← pos) (← value)
    g.next
    return some found
  | _ => return none

end Grammar

end ShellToDeno.Shell
