import ShellToDeno.Shell.Reader.Document

/-!
Tokens. Which characters form an operator depends on the mode; everything else is a literal.
-/
namespace ShellToDeno.Shell.Read

def advanceTo (token : Token) : Read Token := do
  advance
  return token

/-- The token after a dollar sign; only outside double quotes may a quote follow it. -/
def dollarToken (quotes : Bool) : Read Token := do
  match ← advanced with
  | .char '\'' => if quotes then advanceTo .dollarSingleQuote else return .dollar
  | .char '"' => if quotes then advanceTo .dollarDoubleQuote else return .dollar
  | .char '{' => advanceTo .dollarBrace
  | .char '[' => if (← get).mode == .parameterName then return .dollar else advanceTo .dollarBracket
  | .char '(' =>
    if (← advanced) == .char '(' then advanceTo .dollarDoubleParen else return .dollarParen
  | _ => return .dollar

/-- A token inside double quotes or a here-document. -/
def quotedToken : Rune → Read Token
  | .char '"' => advanceTo .doubleQuote
  | .char '`' => return .backquote
  | _ => dollarToken false

/-- An operator of commands. A backquote is left under the cursor. -/
def commandToken : Rune → Read Token
  | .char '\'' => advanceTo .singleQuote
  | .char '"' => advanceTo .doubleQuote
  | .char '`' => return .backquote
  | .char '&' => do
    match ← advanced with
    | .char '&' => advanceTo .andAnd
    | .char '>' => if (← advanced) == .char '>' then advanceTo .appendAll else return .redirectAll
    | _ => return .and
  | .char '|' => do
    match ← advanced with
    | .char '|' => advanceTo .orOr
    | .char '&' => advanceTo .orAnd
    | _ => return .or
  | .char '$' => dollarToken true
  | .char '(' => do
    if (← advanced) == .char '(' && (← get).mode != .test then advanceTo .doubleLeftParen
    else return .leftParen
  | .char ')' => advanceTo .rightParen
  | .char ';' => do
    match ← advanced with
    | .char ';' =>
      if (← advanced) == .char '&' then advanceTo .doubleSemicolonAnd else return .doubleSemicolon
    | .char '&' => advanceTo .semicolonAnd
    | _ => return .semicolon
  | .char '<' => do
    match ← advanced with
    | .char '<' =>
      match ← advanced with
      | .char '-' => advanceTo .tabbedDocument
      | .char '<' => advanceTo .hereString
      | _ => return .document
    | .char '>' => advanceTo .redirectInOut
    | .char '&' => advanceTo .duplicateIn
    | .char '(' => advanceTo .processIn
    | _ => return .redirectIn
  | _ => do
    match ← advanced with
    | .char '>' => advanceTo .appendOut
    | .char '&' => advanceTo .duplicateOut
    | .char '|' => advanceTo .clobberOut
    | .char '(' => advanceTo .processOut
    | _ => return .redirectOut

def isCommandOperator : Rune → Bool
  | .char c => ";\"'()$|&><`".toList.contains c
  | _ => false

/-- One character, or two when the second follows. -/
def doubled (second : Char) (single double : Token) : Read Token := do
  if (← advanced) == .char second then advanceTo double else return single

def parameterToken : Rune → Read Token
  | .char '}' => advanceTo .rightBrace
  | .char ':' => do
    match ← advanced with
    | .char '+' => advanceTo .colonPlus
    | .char '-' => advanceTo .colonMinus
    | .char '?' => advanceTo .colonQuestion
    | .char '=' => advanceTo .colonAssign
    | _ => return .colon
  | .char '+' => advanceTo .plus
  | .char '-' => advanceTo .minus
  | .char '?' => advanceTo .question
  | .char '=' => advanceTo .assign
  | .char '%' => doubled '%' .percent .doublePercent
  | .char '#' => doubled '#' .hash .doubleHash
  | .char '!' => advanceTo .exclamation
  | .char '[' => advanceTo .leftBracket
  | .char ']' => advanceTo .rightBracket
  | .char '/' => do
    if (← advanced) == .char '/' && (← get).mode != .parameterReplace then advanceTo .doubleSlash
    else return .slash
  | .char '^' => doubled '^' .caret .doubleCaret
  | .char ',' => doubled ',' .comma .doubleComma
  | .char '@' => advanceTo .atSign
  | _ => advanceTo .star

def isParameterOperator : Rune → Bool
  | .char c => "\x7d#!:-+=?%[]/^,@*".toList.contains c
  | _ => false

def arithmeticToken : Rune → Read Token
  | .char '!' => doubled '=' .exclamation .notEqual
  | .char '=' => doubled '=' .assign .equal
  | .char '~' => advanceTo .tilde
  | .char '(' => advanceTo .leftParen
  | .char ')' => advanceTo .rightParen
  | .char '&' => do
    match ← advanced with
    | .char '&' => advanceTo .andAnd
    | .char '=' => advanceTo .andAssign
    | _ => return .and
  | .char '|' => do
    match ← advanced with
    | .char '|' => advanceTo .orOr
    | .char '=' => advanceTo .orAssign
    | _ => return .or
  | .char '<' => do
    match ← advanced with
    | .char '<' => doubled '=' .document .shiftLeftAssign
    | .char '=' => advanceTo .lessEqual
    | _ => return .redirectIn
  | .char '>' => do
    match ← advanced with
    | .char '>' => doubled '=' .appendOut .shiftRightAssign
    | .char '=' => advanceTo .greaterEqual
    | _ => return .redirectOut
  | .char '+' => do
    match ← advanced with
    | .char '+' => advanceTo .plusPlus
    | .char '=' => advanceTo .plusAssign
    | _ => return .plus
  | .char '-' => do
    match ← advanced with
    | .char '-' => advanceTo .minusMinus
    | .char '=' => advanceTo .minusAssign
    | _ => return .minus
  | .char '%' => doubled '=' .percent .percentAssign
  | .char '*' => do
    match ← advanced with
    | .char '*' => advanceTo .power
    | .char '=' => advanceTo .starAssign
    | _ => return .star
  | .char '/' => doubled '=' .slash .slashAssign
  | .char '^' => doubled '=' .caret .caretAssign
  | .char '[' => advanceTo .leftBracket
  | .char ']' => advanceTo .rightBracket
  | .char ',' => advanceTo .comma
  | .char '?' => advanceTo .question
  | .char ':' => advanceTo .colon
  | _ => advanceTo .hash

def isArithmeticOperator : Rune → Bool
  | .char c => "+-!~*/%()^<>:=,?|&[]#".toList.contains c
  | _ => false

def operator (token : Read Token) : Read Unit := do setToken (← token)

/-- Passes a comment; the token after it counts. -/
def skipComment (g : Grammar) : Read Unit := do
  advance
  discard <| sweep commentStep ()
  g.next

def globToken : Rune → Token
  | .char '?' => .globQuestion
  | .char '*' => .globStar
  | .char '+' => .globPlus
  | .char '@' => .globAt
  | _ => .globExclamation

/-- A token of a command. -/
def readRegular (g : Grammar) (r : Rune) : Read Unit := do
  if isCommandOperator r then operator (commandToken r) else
  let state ← get
  match r with
  | .char '#' =>
    let continues := match state.token with
      | .litWord | .rightBrace | .singleQuote | .doubleQuote => !state.spaced
      | _ => false
    if continues then readBare else skipComment g
  | .char '[' | .char '=' =>
    if state.mode == .arrayElements then operator (parameterToken r) else readBare
  | .char '?' | .char '*' | .char '+' | .char '@' | .char '!' =>
    if startsGlob state.value state.cursor then
      setToken (globToken r)
      advance
      advance
    else readBare
  | _ => readBare

def readRegexToken : Rune → Read Unit
  | .char ')' => do
    if (← get).regexParens > 0 then readRegex
    else
      setToken .rightParen
      setMode .plain
      advance
  | r => if isCommandOperator r && r != .char '(' && r != .char '|' then operator (commandToken r)
    else readRegex

/-- The token that starts at the cursor, blanks before it passed. -/
def classify (g : Grammar) (r : Rune) : Read Unit := do
  let mode := (← get).mode
  if mode.isRegular then readRegular g r
  else if mode.isArithmetic && isArithmeticOperator r then operator (arithmeticToken r)
  else if mode.isParameter && isParameterOperator r then operator (parameterToken r)
  else if mode == .testRegex then
    let state ← get
    if !state.regexFirst && state.spaced then
      setMode .plain
      readRegular g r
    else
      modify fun s => { s with regexFirst := false }
      readRegexToken r
  else if isCommandOperator r then operator (commandToken r)
  else readInner

/-- Passes blanks; false if a newline or the end was met. -/
def skipBlanks (g : Grammar) (_ : Unit) : Read (Unit ⊕ Bool) := do
  match ← rune with
  | .stop =>
    setToken .eof
    return .inr false
  | .join =>
    advance
    return .inl ()
  | .char ' ' | .char '\t' | .char '\r' =>
    modify fun s => { s with spaced := true }
    advance
    return .inl ()
  | .char '\n' =>
    if (← token) == .newline then
      advance
      return .inl ()
    modify fun s => { s with spaced := true, token := .newline }
    let state ← get
    if state.mode != .documentWord && state.pending.length > state.buried then readBodies g
    return .inr false
  | _ => return .inr true

def markPos : Read Unit := do
  let start ← nextPos
  modify fun s => { s with pos := start }

/-- The next token where blanks belong to the text. -/
def readKeepingBlanks : Read Unit := do
  let mode := (← get).mode
  if !mode.isDocument then discard <| skipJoins false
  markPos
  let r ← rune
  match mode, r with
  | .doubleQuoted, .char '`' | .doubleQuoted, .char '"' | .doubleQuoted, .char '$' =>
    operator (quotedToken r)
  | .doubleQuoted, _ => readQuoted
  | .documentBody, .char '`' | .documentBody, .char '$' | .documentBodyTabs, .char '`'
  | .documentBodyTabs, .char '$' => operator (quotedToken r)
  | .documentBody, _ | .documentBodyTabs, _ => readDocument
  | .parameterReplace, .char '/' => operator (parameterToken r)
  | _, .char '}' => operator (parameterToken r)
  | _, .char '`' | _, .char '"' | _, .char '$' | _, .char '\'' => operator (commandToken r)
  | _, _ => readInner

/-- Moves to the next token. -/
def nextToken (g : Grammar) : Read Unit := do
  if (← rune) == .stop then return ← setToken .eof
  modify fun s => { s with spaced := false }
  if (← get).mode.keepsBlanks then readKeepingBlanks
  else if ← loop (skipBlanks g) g.limit () then
    markPos
    classify g (← rune)

end ShellToDeno.Shell.Read
