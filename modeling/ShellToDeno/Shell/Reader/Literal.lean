import ShellToDeno.Shell.Reader.Basic

/-!
Literals: how far unquoted, quoted and here-document text reaches in each mode. Every literal is
one sweep of the cursor, and its step says of each character whether it still belongs.
-/
namespace ShellToDeno.Shell.Read

open Cursor

/-- Sweeps from the cursor. -/
def swept {σ : Type} (spell : Cursor → Text) (step : σ → Cursor → Text → Move σ) (s : σ) :
    Read (Swept σ) := do
  let state ← get
  let swept ← state.cursor.sweep spell step s
  set { state with cursor := swept.cursor }
  return swept

/-- The literal that a sweep took. -/
def literalOf {σ : Type} (swept : Swept σ) : Read Text :=
  give (swept.cursor.literal swept.taken)

/-- Sweeps from the cursor; gives what the step ended with and the literal. -/
def sweepAs {σ : Type} (spell : Cursor → Text) (step : σ → Cursor → Text → Move σ) (s : σ) :
    Read (σ × Text) := do
  let found ← swept spell step s
  return (found.state, ← literalOf found)

/-- A sweep that leaves escaped newlines out of the literal. -/
def sweep {σ : Type} (step : σ → Cursor → Text → Move σ) (s : σ) : Read (σ × Text) :=
  sweepAs Cursor.text step s

def setLiteral (token : Token) (value : Text) : Read Unit :=
  modify fun s => { s with token, value }

/-- A name after a dollar sign; lines may be joined inside it. -/
def nameStep (_ : Unit) (c : Cursor) (_ : Text) : Move Unit :=
  match c.rune with
  | .stop => .halt ()
  | .join => .take ()
  | .char ch => if ch.toNat < 0x80 && Text.isWordByte ch then .take () else .halt ()

def readName : Read Unit := do
  let (_, text) ← sweep nameStep ()
  setLiteral .litWord text

/-- Text inside double quotes. -/
def quotedStep (token : Token) (c : Cursor) (_ : Text) : Move Token :=
  match c.rune with
  | .stop | .char '"' => .halt token
  | .char '\\' => .pair token
  | .join | .char '`' | .char '$' => .halt .lit
  | _ => .take token

def readQuoted : Read Unit := do
  let (token, text) ← sweep quotedStep .litWord
  setLiteral token text

/-- Text inside arithmetic and parameter expansions. -/
def innerStep (mode : Mode) (token : Token) (c : Cursor) (_ : Text) : Move Token :=
  let endIf (stops : Bool) : Move Token := if stops then .halt token else .take token
  match c.rune with
  | .stop => .halt token
  | .char '\\' => .pair token
  | .char '\'' | .char '"' | .char '`' | .char '$' => .halt .lit
  | .char '}' => endIf mode.isParameter
  | .char '/' => endIf (mode != .parameterWord)
  | .char ':' | .char '=' | .char '%' | .char '^' | .char ',' | .char '?' | .char '!' | .char '~'
  | .char '*' =>
    endIf (mode.isArithmetic || mode == .parameterName)
  | .char '[' | .char ']' => endIf (mode.isArithmetic || mode.isParameterHead)
  | .char '#' | .char '@' => endIf mode.isParameterHead
  | .char '+' | .char '-' | .char ' ' | .char '\t' | .char ';' | .char '&' | .char '>' | .char '<'
  | .char '|' | .char '(' | .char ')' | .char '\n' | .char '\r' => endIf (!mode.keepsBlanks)
  | _ => .take token

def readInner : Read Unit := do
  let (token, text) ← sweep (innerStep (← get).mode) .litWord
  setLiteral token text

/-- Whether an unquoted text is a descriptor: digits, or a name in braces. -/
def isDescriptor (text : Text) : Bool :=
  match text, Text.cutEnd? "\x7d" text with
  | Ascii.openBrace :: _, some cut => Text.isName (cut.drop 1)
  | _, _ => text.all Text.isDigit

/-- Whether a pattern in parentheses starts here, after one of its signs. -/
def startsGlob (lastValue : Text) (c : Cursor) : Bool :=
  lastValue != "function" && c.peeks "(" && !c.peeks "()"

structure BareState where
  token : Token
  equals : Option Nat

/-- Unquoted text of a command. -/
def bareStep (mode : Mode) (lastValue : Text) (s : BareState) (c : Cursor) (taken : Text) :
    Move BareState :=
  match c.rune with
  | .stop => .halt s
  | .char ' ' | .char '\t' | .char '\n' | .char '\r' | .char '&' | .char '|' | .char ';' | .char '('
  | .char ')' => .halt s
  | .char '\\' => .pair s
  | .char '>' | .char '<' =>
    if c.peeks "(" then .halt { s with token := .lit }
    else if isDescriptor taken.reverse then .halt { s with token := .litRedirect }
    else .halt s
  | .char '`' => .halt (if mode == .backquoted then s else { s with token := .lit })
  | .char '"' | .char '\'' | .char '$' => .halt { s with token := .lit }
  | .char '?' | .char '*' | .char '+' | .char '@' | .char '!' =>
    if startsGlob lastValue c then .halt { s with token := .lit } else .take s
  | .char '=' => .take (if s.equals.isNone then { s with equals := some taken.length } else s)
  | .char '[' =>
    match taken.getLast? with
    | some first => if first == '[' then .take s else .halt { s with token := .lit }
    | none => .take s
  | _ => .take s

def readBare : Read Unit := do
  let state ← get
  let (found, text) ← sweep (bareStep state.mode state.value) ⟨.litWord, none⟩
  modify fun s => { s with token := found.token, value := text, equals := found.equals }

/-- What ends a stretch of a regular expression. -/
structure RegexState where
  parens : Int
  token : Token
  /-- Whether the expression ends here. -/
  ends : Bool

/-- Text of a regular expression: blanks and operators belong to it inside parentheses. -/
def regexStep (s : RegexState) (c : Cursor) (_ : Text) : Move RegexState :=
  match c.rune with
  | .char '\\' => .pair s
  | .char '(' => .take { s with parens := s.parens + 1 }
  | .char ')' =>
    let s := { s with parens := s.parens - 1 }
    if s.parens < 0 then .halt { s with ends := true } else .take s
  | .char ' ' | .char '\t' | .char '\r' | .char '\n' | .char ';' | .char '&' | .char
      '>' | .char '<' =>
    if s.parens ≤ 0 then .halt { s with ends := true } else .take s
  | .char '"' | .char '\'' | .char '$' | .char '`' => .halt { s with token := .lit }
  | .stop => .halt { s with ends := true }
  | _ => .take s

def readRegex : Read Unit := do
  let (found, text) ← sweep regexStep ⟨(← get).regexParens, .litWord, false⟩
  modify fun s => { s with
    token := found.token
    value := text
    regexParens := found.parens
    mode := if found.ends then .plain else s.mode }

/-- A comment, up to the end of its line or the backquote that closes around it. -/
def commentStep (_ : Unit) (c : Cursor) (_ : Text) : Move Unit :=
  match c.rune with
  | .stop | .join | .char '\n' => .halt ()
  | .char '`' => if c.closesBackquote then .halt () else .take ()
  | _ => .take ()

/-- Text between single quotes; with a dollar sign in front, backslashes escape. -/
def singleStep (dollar : Bool) (_ : Unit) (c : Cursor) (_ : Text) : Move Unit :=
  match c.rune with
  | .stop | .char '\'' => .halt ()
  | .char '\\' => if dollar then .pair () else .take ()
  | _ => .take ()

/-- A pattern in parentheses; the state counts the open ones. -/
def globStep (parens : Nat) (c : Cursor) (_ : Text) : Move Nat :=
  match c.rune with
  | .stop => .halt parens
  | .char '(' => .take (parens + 1)
  | .char ')' => if parens ≤ 1 then .halt 0 else .take (parens - 1)
  | _ => .take parens

end ShellToDeno.Shell.Read
