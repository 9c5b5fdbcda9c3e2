import ShellToDeno.Shell.Reader.Expansion

/-! Words: literals, quotes, expansions and substitutions that stand next to each other. -/
namespace ShellToDeno.Shell.Read

/-- No expansion may stand in the stop word of a here-document. -/
def failInStopWord : Read Unit := do
  if (← get).inStopWord then failHere .expansionInStop

def failUnclosedQuote {α : Type} (start : Place) (quote : Token) : Read α := do
  fail start (.unclosedQuote (← token) quote)

def literalPart (g : Grammar) : Read Part := do
  let found ← lexeme (← pos) (← value)
  g.next
  return .literal found

def bracedPart (g : Grammar) : Read Part := do
  failInStopWord
  match ← rune with
  | .char '|' => failHere (.foreign "$\x7b|stmts;\x7d")
  | .char ' ' | .char '\t' | .char '\n' => failHere (.foreign "$\x7b stmts;\x7d")
  | _ => expansion g

def arithmeticPart (g : Grammar) (left : Token) : Read Part := do
  failInStopWord
  let start ← pos
  if left == .dollarDoubleParen then
    return .arithmetic ⟨start.offset, (← arithmeticBody g .arithmeticExpansion left start) + 2⟩
  nested .arithmeticBracket do
    g.next
    if ← g.got .hash then fail start (.unsupported "unsigned expressions")
    discard <| followArithmetic g left start
    if (← token) != .rightBracket then failUnmatched start left .rightBracket
  let stop ← pos
  g.next
  return .arithmetic ⟨start.offset, stop.offset + 1⟩

def substitutionPart (g : Grammar) : Read Part := do
  failInStopWord
  let start ← pos
  let body ← nested .subshell do
    g.next
    g.statements []
  return .substitution ⟨start.offset, (← g.matched start "(" .rightParen) + 1⟩ body

def processPart (g : Grammar) (operator : Token) : Read Part := do
  failInStopWord
  let start ← pos
  discard <| nested .subshell do
    g.next
    g.statements []
  return .process ⟨start.offset, (← g.matched start operator.text .rightParen) + 1⟩

def changeBackquotes (f : Nat → Nat) : Read Unit :=
  modify fun s => { s with cursor := { s.cursor with backquotes := f s.cursor.backquotes } }

/-- A substitution in backquotes, and nothing when the backquote closes one. -/
def backquotePart (g : Grammar) : Read (Option Part) := do
  if ← closesBackquote then return none
  failInStopWord
  let start ← pos
  let body ← nested .backquoted do
    changeBackquotes (· + 1)
    advance
    g.next
    let body ← g.statements []
    let s ← get
    if s.token == .backquote && s.cursor.escapes < s.cursor.backquotes - 1 then
      fail start (.unclosedQuote .eof .backquote)
    return body
  changeBackquotes (· - 1)
  let stop ← pos
  advance
  if !(← g.got .backquote) then failUnclosedQuote start .backquote
  return some (.substitution ⟨start.offset, stop.offset + 1⟩ body)

/-- A parameter without braces. A dollar sign that no name follows is a literal. -/
def shortPart (g : Grammar) : Read Part := do
  let start ← pos
  let special (c : Char) : Bool := "@*#$?!-".toList.contains c || c.isDigit
  let name : Bool ← match ← rune with
    | .char c =>
      if special c then do
        setLiteral .litWord (Utf8.encode c)
        advance
        pure true
      else if c.isAlpha || c == '_' || c == '\\' then do
        readName
        pure true
      else pure false
    | _ => pure false
  if !name then
    let found ← lexeme start "$"
    g.next
    return .literal found
  failInStopWord
  let found ← lexeme (start.shift 1) (← value)
  g.next
  if found.value.isEmpty then return .literal ⟨⟨start.offset, start.offset + 1⟩, "$"⟩
  return .parameter ⟨start.offset, found.span.stop⟩ true (some found) none

def singlePart (g : Grammar) (dollar : Bool) : Read Part := do
  let start ← pos
  let (_, text) ← sweepAs Cursor.spelling (singleStep dollar) ()
  if (← rune) == .stop then fail start (.unclosedQuote .eof .singleQuote)
  let stop ← nextPos
  advance
  g.next
  return .singleQuoted ⟨start.offset, stop.offset + 1⟩ dollar text

def doublePart (g : Grammar) : Read (Option Part) := do
  if (← get).mode == .doubleQuoted then return none
  let start ← pos
  let word ← inMode .doubleQuoted do
    g.next
    g.word
  let stop ← pos
  if !(← g.got .doubleQuote) then failUnclosedQuote start .doubleQuote
  return some (.doubleQuoted ⟨start.offset, stop.offset + 1⟩ ((word.map Word.parts).getD []))

def globPart (g : Grammar) (operator : Token) : Read Part := do
  let start ← pos
  let (parens, _) ← sweep globStep 1
  let stop ← nextPos
  advance
  g.next
  if parens != 0 then fail start (.unmatched (← token) operator.text Token.rightParen.text)
  return .glob ⟨start.offset, stop.offset + 1⟩

/-- The part that starts at the current token. -/
def part (g : Grammar) : Read (Option Part) := do
  match ← token with
  | .lit | .litWord => return some (← literalPart g)
  | .dollarBrace => return some (← bracedPart g)
  | .dollarDoubleParen => return some (← arithmeticPart g .dollarDoubleParen)
  | .dollarBracket => return some (← arithmeticPart g .dollarBracket)
  | .dollarParen => return some (← substitutionPart g)
  | .dollar => return some (← shortPart g)
  | .processIn => return some (← processPart g .processIn)
  | .processOut => return some (← processPart g .processOut)
  | .singleQuote => return some (← singlePart g false)
  | .dollarSingleQuote => return some (← singlePart g true)
  | .doubleQuote | .dollarDoubleQuote => doublePart g
  | .backquote => backquotePart g
  | .globQuestion => return some (← globPart g .globQuestion)
  | .globStar => return some (← globPart g .globStar)
  | .globPlus => return some (← globPart g .globPlus)
  | .globAt => return some (← globPart g .globAt)
  | .globExclamation => return some (← globPart g .globExclamation)
  | _ => return none

/-- Goes on with a word whose first parts, last first, are known. -/
def wordFrom (g : Grammar) (parts : List Part) : Read (List Part) :=
  loop (fun taken => do
    match ← part g with
    | none => return .inr taken.reverse
    | some found =>
      if (← get).spaced then return .inr (found :: taken).reverse
      return .inl (found :: taken)) g.limit parts

def word (g : Grammar) : Read (Option Word) := do
  let parts ← wordFrom g []
  return if parts.isEmpty then none else some (.mk parts)

end ShellToDeno.Shell.Read
