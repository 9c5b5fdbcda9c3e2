import ShellToDeno.Shell.Reader.Arithmetic

/-!
Parameter expansions in braces. Of the operators only those that are followed by a word keep it;
a replacement, a slice and an index are read and passed.
-/
namespace ShellToDeno.Shell.Read

/-- Whether a length or indirection sign before this character belongs to a name. -/
def startsName : Rune → Bool
  | .char c => !"\x7d:+=%[]/^,".toList.contains c
  | _ => true

/-- What was found at the start of an expansion. -/
structure ExpansionHead where
  name : Lexeme
  /-- The token of the name. -/
  token : Token
  length : Bool
  indirect : Bool

/-- Moves to the first token after the opening brace. -/
def enterExpansion (g : Grammar) : Read Unit := do
  if (← rune) == .char '#' then
    setToken .hash
    markPos
    advance
  else g.next

def signLexeme (g : Grammar) : Read Lexeme := do
  let found ← lexeme (← pos) (← token).text
  g.next
  return found

def expansionName (g : Grammar) (length : Bool) : Read (Lexeme × Bool) := do
  match ← token with
  | .lit | .litWord =>
    let name ← value
    if !name.all Text.isDigit && !Text.isName name then failHere .parameterName
    let found ← lexeme (← pos) name
    g.next
    return (found, length)
  | .question | .minus =>
    if length && (← rune) != .char '}' then
      let place ← pos
      return (⟨⟨place.offset - 1, place.offset⟩, "#"⟩, false)
    return (← signLexeme g, length)
  | .atSign | .star | .hash | .exclamation | .dollar => return (← signLexeme g, length)
  | _ => failHere .parameterLiteral

def expansionHead (g : Grammar) (start : Place) : Read ExpansionHead := do
  enterExpansion g
  let sign ← token
  if sign == .percent then fail start (.foreign "$\x7b%foo\x7d")
  let signed := (sign == .hash || sign == .exclamation) && startsName (← rune)
  if signed then g.next
  let first ← token
  let (name, length) ← expansionName g (signed && sign == .hash)
  return ⟨name, first, length, signed && sign == .exclamation⟩

/-- The word after an operator. -/
def operand (g : Grammar) : Read (Option Word) := do
  let operator ← token
  setMode .parameterWord
  g.next
  if operator == .atSign then
    let s ← get
    if s.token != .lit && s.token != .litWord then failHere .atLiteral
    if s.value == "#" then failHere (.unsupported "this expansion operator")
    if !(List.map Text.ofString ["a", "u", "A", "E", "K", "L", "P", "U", "Q"]).contains s.value then
      failHere .atOperator
  g.word

def replacement (g : Grammar) : Read Unit := do
  setMode .parameterReplace
  g.next
  discard <| g.word
  setMode .parameterWord
  if ← g.got .slash then discard <| g.word

def slice (g : Grammar) : Read Unit := do
  let first ← pos
  setMode .parameterSlice
  g.next
  if (← token) != .colon then discard <| followArithmetic g .colon first
  let second ← pos
  if ← g.got .colon then discard <| followArithmetic g .colon second

/-- The operator of an expansion and what follows it. -/
def expansionOperator (g : Grammar) (head : ExpansionHead) : Read (Option Word) := do
  match ← token with
  | .slash | .doubleSlash =>
    replacement g
    return none
  | .atSign | .star =>
    if (← token) == .star && !head.indirect then failHere (.parameterOperator .star)
    if head.indirect && (← rune) == .char '}' then
      g.next
      return none
    operand g
  | .caret | .doubleCaret | .comma | .doubleComma | .plus | .colonPlus | .minus | .colonMinus
  | .question | .colonQuestion | .assign | .colonAssign | .percent | .doublePercent | .hash
  | .doubleHash => operand g
  | .eof => return none
  | t => failHere (.parameterOperator t)

/-- An expansion from its opening brace. -/
def expansion (g : Grammar) : Read Part := do
  let start ← pos
  let outer := (← get).mode
  setMode .parameterName
  let head ← expansionHead g start
  let finish (operand : Option Word) : Read Part := do
    setMode outer
    let stop ← g.matched start "$\x7b" .rightBrace
    return .parameter ⟨start.offset, stop + 1⟩ false (some head.name) operand
  match ← token with
  | .lit | .litWord => failHere (.parameterWord head.token)
  | .leftBracket =>
    if !Text.isName head.name.value then failHere .specialIndex
    discard <| index g
  | _ => pure ()
  if (← token) == .rightBrace then return ← finish none
  if (← token) != .eof && head.length then failHere .parameterOperators
  if (← token) == .colon then
    slice g
    setMode outer
    let stop ← matchedArithmetic g start .dollarBrace .rightBrace
    return .parameter ⟨start.offset, stop + 1⟩ false (some head.name) none
  finish (← expansionOperator g head)

end ShellToDeno.Shell.Read
