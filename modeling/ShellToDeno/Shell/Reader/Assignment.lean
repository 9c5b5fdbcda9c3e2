import ShellToDeno.Shell.Reader.Word

/-! Assignments to names, to elements and of arrays, and the redirects of a statement. -/
namespace ShellToDeno.Shell.Read

/-- Whether an assignment starts at the current literal. The equals sign may have been cut off. -/
def atAssignment : Read Bool := do
  let s ← get
  if s.token != .lit && s.token != .litWord then return false
  let bracket := s.cursor.rune == .char '['
  match s.equals with
  | some (place + 1) =>
    let before ← firstBytes (place + 1) s.value
    let plus := before.getLast? == some '+'
    return Text.isName (if plus then before.dropLast else before) || bracket
  | _ => return Text.isName s.value && bracket

/-- The left side of an assignment, and the part of its value in the same literal. -/
structure Target where
  start : Place
  name : Lexeme
  /-- Where the index ends. -/
  index : Option Nat
  /-- A bare element, without an equals sign. -/
  bare : Bool
  value : List Part

/-- `name=` or `name+=`, with the equals sign at `place` in the literal. -/
def plainTarget (g : Grammar) (place : Nat) : Read Target := do
  let start ← pos
  let text ← value
  let nameEnd := if text[place - 1]? == some '+' then place - 1 else place
  discard <| firstBytes (place + 1) text
  let rest := text.drop (place + 1)
  let found ← lexeme (start.shift (place + 1)) rest
  g.next
  return ⟨start, ⟨⟨start.offset, start.offset + nameEnd⟩, text.take nameEnd⟩, none, false,
    if rest.isEmpty then [] else [.literal found]⟩

/-- Drops the first byte of the current literal. -/
def dropByte : Read Unit :=
  modify fun s => { s with value := s.value.drop 1, pos := s.pos.shift 1 }

/-- `name[index]`, with an equals sign unless it may be bare. -/
def elementTarget (g : Grammar) (needEqual : Bool) : Read Target := do
  let start ← pos
  let name ← lexeme start (← value)
  advance
  modify fun s => { s with pos := s.pos.shift 1 }
  let stop ← index g
  if (← get).spaced || (← atStop) then
    if needEqual then fail start (.needsAfter "a[b]" "=")
    return ⟨start, name, some stop, true, []⟩
  let append := (← value).head? == some '+'
  if append then dropByte
  if (← value).head? != some '=' then
    fail start (.needsAfter (if append then "a[b]+" else "a[b]") "=")
  dropByte
  if (← value).isEmpty then g.next
  return ⟨start, name, some stop, false, []⟩

/-- One element of an array; it may lack a value. -/
def arrayElement (g : Grammar) : Read (Option Word) := do
  if (← token) == .leftBracket then
    let left ← pos
    discard <| index g
    g.follow left "\"[x]\"" .assign
  match ← g.word with
  | some word => return some word
  | none =>
    match ← token with
    | .leftParen => failHere .nestedArray
    | .newline | .rightParen | .leftBracket => return none
    | _ => failHere .arrayElement

def arrayElements (g : Grammar) (elements : List Word) : Read (List Word ⊕ List Word) := do
  let found ← token
  if found == .eof || found == .rightParen then return .inr elements.reverse
  let element ← arrayElement g
  discard <| g.got .newline
  return .inl (element.toList ++ elements)

def arrayListing (g : Grammar) : Read Listing := do
  let start ← pos
  let elements ← nested .arrayElements do
    g.next
    discard <| g.got .newline
    loop (arrayElements g) g.limit []
  return .mk ⟨start.offset, (← g.matched start "(" .rightParen) + 1⟩ elements

/-- Where an assignment without a value ends. -/
def Target.stop (t : Target) : Nat :=
  match t.index with
  | some stop => stop + 2
  | none => t.name.span.stop + 1

def Target.assign (t : Target) (parts : List Part) : Assignment :=
  if parts.isEmpty then .mk ⟨t.name.span.start, t.stop⟩ t.name t.index.isSome none none
  else .mk ⟨t.name.span.start, (Word.mk parts).stop⟩ t.name t.index.isSome none (some (.mk parts))

def target (g : Grammar) (needEqual : Bool) : Read Target := do
  match (← get).equals with
  | some (place + 1) => plainTarget g (place + 1)
  | _ => elementTarget g needEqual

/-- What follows the equals sign of an assignment. -/
def assignValue (g : Grammar) (t : Target) : Read Assignment := do
  if (← get).spaced || (← atStop) then return t.assign t.value
  if t.value.isEmpty && (← token) == .leftParen then
    if t.index.isSome then failHere .nestedArray
    let listing ← arrayListing g
    let .mk span _ := listing
    return .mk ⟨t.name.span.start, span.stop⟩ t.name false (some listing) none
  let word ← g.word
  return t.assign (t.value ++ (word.map Word.parts).getD [])

/-- An assignment and where it starts. -/
def assignment (g : Grammar) : Read (Place × Assignment) := do
  let t ← target g true
  return (t.start, ← assignValue g t)

def declaredAssignment (g : Grammar) : Read Declared := do
  let t ← target g false
  if t.bare then return .name t.name t.stop
  return .assignment (← assignValue g t)

def redirectKind : Token → RedirectKind
  | .document | .tabbedDocument => .document
  | .hereString => .hereString
  | _ => .file

/-- The stop word of a here-document; its body is read at the end of the line. -/
def documentRedirect (g : Grammar) (tabbed : Bool) (operator : Token) (start whole : Place) :
    Read Word := do
  let word ← inMode .documentWord do
    modify fun s => { s with inStopWord := true }
    g.requireWord operator.text start
  let document : Pending := ⟨start.offset, whole, tabbed, word⟩
  modify fun s => { s with inStopWord := false, pending := s.pending ++ [document] }
  if (← token) == .newline then readBodies g
  return word

def redirect (g : Grammar) : Read Redirect := do
  let whole ← pos
  let number := (← g.literal?).map Lexeme.span
  let operator ← token
  let start ← pos
  g.next
  let word ← match operator with
    | .document => documentRedirect g false operator start whole
    | .tabbedDocument => documentRedirect g true operator start whole
    | _ => g.requireWord operator.text start
  return .mk start.offset number (redirectKind operator) word

end ShellToDeno.Shell.Read
