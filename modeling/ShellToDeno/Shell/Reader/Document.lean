import ShellToDeno.Shell.Reader.Literal

/-!
Here-documents. A body starts on the line after its operator and ends before the line that equals
its stop word. The stop word decides how the body is read: if its last part is quoted, the body is
one literal, otherwise it is a word with expansions.
-/
namespace ShellToDeno.Shell.Read

open Cursor

structure DocumentState where
  /-- Where the current line starts in the text taken. -/
  line : Nat
  /-- Whether nothing but tabs of the current line was taken. -/
  margin : Bool
  /-- Whether a line was passed. -/
  later : Bool
  closed : Bool

namespace DocumentState

def first : DocumentState := ⟨0, true, false, false⟩

/-- Fixes the start of a line at its first character; when it is `skewed`, at its last byte. -/
def settle (s : DocumentState) (skewed : Bool) (c : Cursor) (taken : Text) : DocumentState :=
  if s.margin then
    { s with margin := false, line := taken.length + if skewed then c.text.length - 1 else 0 }
  else s

/-- The current line; what was taken is given last byte first. -/
def lineText (s : DocumentState) (taken : Text) : Text :=
  (taken.take (taken.length - s.line)).reverse

end DocumentState

/-- Text of a body with expansions. A line that follows an escaped newline never ends the body. -/
def documentStep (tabbed afterJoin : Bool) (stop : Text) (s : DocumentState) (c : Cursor)
    (taken : Text) : Move DocumentState :=
  if tabbed && s.margin && c.rune == .char '\t' then .take s else
  let s := s.settle (!s.later) c taken
  let matched := !(s.line == 0 && afterJoin) && s.lineText taken == stop
  match c.rune with
  | .join | .char '$' => .halt s
  | .char '\\' => .pair s
  | .char '`' =>
    if c.closesBackquote then .halt { s with closed := matched } else .halt s
  | .char '\n' =>
    if matched then .halt { s with closed := true } else
      .take { s with margin := true, later := true }
  | .stop => .halt { s with closed := matched && c.text.isEmpty }
  | _ => .take s

/-- Marks the innermost here-document as closed. -/
def closeDocument : Read Unit :=
  modify fun s => { s with stops := none :: s.stops.drop 1 }

def stopLine : Read Text := return ((← get).stops.head?.join).getD []

def joinStep (seen : Bool) (c : Cursor) (_ : Text) : Move Bool :=
  if c.rune == .join then .take true else .halt seen

/-- Passes joined lines; tells whether there were any, or `seen` was true already. -/
def skipJoins (seen : Bool) : Read Bool :=
  return (← swept Cursor.text joinStep seen).state

/-- The first bytes of a literal. -/
def firstBytes (count : Nat) (text : Text) : Read Text :=
  give (if count ≤ text.length then .ok (text.take count) else .error .outOfRange)

/-- The next literal of a body with expansions. -/
def readDocument : Read Unit := do
  let afterJoin ← skipJoins ((← token) == .lit)
  let start ← nextPos
  modify fun s => { s with pos := start }
  let tabbed := (← get).mode == .documentBodyTabs
  let found ← swept Cursor.text (documentStep tabbed afterJoin (← stopLine)) .first
  let cutOff := found.cursor.rune == .stop ||
    (found.cursor.rune == .char '`' && found.cursor.closesBackquote)
  if found.state.closed then
    let before ← firstBytes found.state.line (← literalOf found)
    closeDocument
    setLiteral (if before.isEmpty then .newline else .litWord) before
  else if cutOff then setToken .lit
  else setLiteral .lit (← literalOf found)

/-- Lines of a body without expansions. One that a stop ends is compared like any other. -/
def rawDocumentStep (tabbed : Bool) (stop : Text) (s : DocumentState) (c : Cursor) (taken : Text) :
    Move DocumentState :=
  if tabbed && s.margin && c.rune == .char '\t' then .take s else
  if s.margin && c.rune == .stop then .halt s else
  let s := s.settle true c taken
  let line := s.lineText taken
  let endLine (line : Text) : Move DocumentState :=
    if line == stop then .halt { s with closed := true } else
      .take { s with margin := true, later := true }
  match c.rune with
  | .stop => endLine (line ++ c.text)
  | .char '\n' => endLine line
  | .char '`' => if c.closesBackquote then endLine line else .take s
  | .join =>
    if !line.isEmpty && line ++ "\\" == stop then .halt { s with closed := true }
    else .take { s with margin := true, later := true }
  | _ => .take s

/-- A body without expansions, and nothing when it is empty. -/
def readRawDocument : Read (Option Word) := do
  let start ← nextPos
  let tabbed := (← get).mode == .documentBodyTabs
  let found ← swept Cursor.spelling (rawDocumentStep tabbed (← stopLine)) .first
  if !found.state.closed then return none
  closeDocument
  let text ← firstBytes found.state.line (← literalOf found)
  if text.isEmpty then return none
  return some (.mk [.literal (← lexeme start text)])

/-- Removes the escapes of an unquoted literal; tells whether there were any. -/
def unescapeStop : Text → Text × Bool
  | [] => ([], false)
  | [Ascii.backslash] => ([], true)
  | Ascii.backslash :: b :: rest => (b :: (unescapeStop rest).1, true)
  | b :: rest => let (text, quoted) := unescapeStop rest; (b :: text, quoted)

def stopPart : Part → Text × Bool
  | .literal lexeme => unescapeStop lexeme.value
  | .singleQuoted _ _ value => (value, true)
  | .doubleQuoted _ parts =>
    (parts.flatMap fun
      | .literal lexeme => lexeme.value
      | .singleQuoted _ _ value => value
      | _ => [], true)
  | _ => ([], false)

/-- The line that ends a body, and whether the last part of the stop word is quoted. -/
def stopOf (word : Word) : Text × Bool :=
  let parts := word.parts.map stopPart
  (parts.flatMap Prod.fst, (parts.getLast?.map Prod.snd).getD false)

/-- Reads one body; `later` says that another one was read just before it. -/
def readBody (g : Grammar) (later : Bool) (document : Pending) : Read Unit := do
  setMode (if document.tabbed then .documentBodyTabs else .documentBody)
  let (stop, quoted) := stopOf document.word
  modify fun s => { s with stops := some stop :: s.stops }
  if later && (← rune) == .char '\n' then advance
  let body ← if quoted then readRawDocument else do g.next; g.word
  if ((← get).stops.head?.join).isSome then fail document.start (.unclosedDocument stop)
  modify fun s => { s with
    stops := s.stops.drop 1
    bodies := match body with
      | some word => ⟨document.operator, word.span⟩ :: s.bodies
      | none => s.bodies }

def readBodyList (g : Grammar) : Bool → List Pending → Read Unit
  | _, [] => return ()
  | later, document :: rest => do
    readBody g later document
    readBodyList g true rest

/-- Reads the bodies that start after the newline under the cursor. -/
def readBodies (g : Grammar) : Read Unit := do
  let state ← get
  let documents := state.pending.drop state.buried
  if documents.isEmpty then return ()
  advance
  modify fun s => { s with pending := s.pending.take s.buried }
  readBodyList g false documents
  setMode state.mode

end ShellToDeno.Shell.Read
