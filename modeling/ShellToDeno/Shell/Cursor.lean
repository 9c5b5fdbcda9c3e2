import ShellToDeno.Shell.SyntaxError
import ShellToDeno.Text.Utf8

/-!
A place in a script. The cursor stands on one character; a backslash and the newline after it count
as one. NUL bytes are passed over, and so are the backslashes that only carry a character through
backquotes. Those backslashes count as part of the character after them, and a literal that ends
there loses as many bytes at its end.
-/
namespace ShellToDeno.Shell

inductive Rune where
  | char (c : Char)
  /-- An escaped newline. -/
  | join
  | stop
  deriving DecidableEq, Repr

/-- U+0080 ends a script and U+0081 continues a line. -/
def Rune.ofChar (c : Char) : Rune :=
  if c.toNat == 0x80 then .stop else if c.toNat == 0x81 then .join else .char c

def Rune.endsLine (r : Rune) : Bool := r == .char '\n' || r == .join

structure Cursor where
  rune : Rune
  /-- The bytes that the character adds to a literal. -/
  text : Text
  /-- The bytes that count as the character. -/
  width : Nat
  line : Nat
  column : Nat
  rest : Text
  /-- Offset of `rest`. -/
  after : Nat
  /-- Backquotes that are open. -/
  backquotes : Nat
  /-- Backslashes dropped before the last backquote. -/
  escapes : Nat
  deriving Repr

namespace Cursor

/-- A number of a line or column; those beyond the limit are not known. -/
def upTo (limit number : Nat) : Nat := if number ≤ limit then number else 0

/-- Where the character stands. -/
def place (c : Cursor) : Place :=
  ⟨c.after - c.width, upTo 262143 c.line, upTo 16383 c.column⟩

/-- Characters whose backslash is dropped inside backquotes. -/
def isCarried : Option UInt8 → Bool
  | some b => b == '$' || b == '`' || b == '\\'
  | none => false

def onJoin (c : Cursor) (width after : Nat) (rest : Text) : Cursor :=
  { c with rune := .join, text := [], width, after, rest }

def onStop (c : Cursor) (after : Nat) : Cursor :=
  if c.rune == .stop then { c with after, rest := [] }
  else { c with rune := .stop, text := [], width := 1, after := after + 1, rest := [] }

def onChar (c : Cursor) (char : Char) (dropped after : Nat) (rest : Text) : Cursor :=
  { c with
    rune := .ofChar char
    text := Utf8.encode char
    width := char.utf8Size + dropped
    after
    rest
    escapes := if char == '`' then dropped else c.escapes }

/-- Finds the character at an offset; line and column are already those of it, the character before
it is still there. -/
def fetch (c : Cursor) : Nat → Nat → Text → Except (Refusal SyntaxError) Cursor
  | _, off, [] => .ok (c.onStop off)
  | dropped, off, b :: rest =>
    if b == 0 then c.fetch dropped (off + 1) rest
    else if b == '\\' && c.rune != .char '\\' && rest.head? == some Ascii.newline then
      .ok (c.onJoin 1 (off + 2) (rest.drop 1))
    else if b == '\\' && c.rune != .char '\\' && ("\r\n" : Text).isPrefixOf rest then
      .ok (c.onJoin 2 (off + 3) (rest.drop 2))
    else if b == '\\' && dropped < c.backquotes && isCarried rest.head? then
      c.fetch (dropped + 1) (off + 1) rest
    else match Utf8.next? (b :: rest) with
      | none => .error (.rejected ⟨c.place, .invalidUtf8⟩)
      | some (char, tail) => .ok (c.onChar char dropped (off + char.utf8Size) tail)

/-- Moves to the next character. A joined line starts after as many columns as the join is wide. -/
def advance (c : Cursor) : Except (Refusal SyntaxError) Cursor :=
  let moved := if c.rune.endsLine then { c with line := c.line + 1, column := c.width }
    else { c with column := c.column + c.width }
  moved.fetch 0 c.after c.rest

def start (source : Text) : Except (Refusal SyntaxError) Cursor :=
  fetch ⟨.char '\x00', [], 0, 1, 1, source, 0, 0, 0⟩ 0 0 source

def peeks (c : Cursor) (next : Text) : Bool := next.isPrefixOf c.rest

/-- Whether a backquote here closes the innermost open one. -/
def closesBackquote (c : Cursor) : Bool := c.escapes < c.backquotes

/-- The cursor as the start of a literal, to which only characters add their bytes. -/
def opening (c : Cursor) : Cursor :=
  match c.rune with
  | .char _ => c
  | _ => { c with text := [] }

/-- The literal that ends before the character; what was taken is given last byte first. Where the
script ends or a line is joined, nothing is cut off. -/
def literal (c : Cursor) (taken : Text) : Except Fault Text :=
  match c.rune with
  | .char _ =>
    if c.width ≤ taken.length + c.text.length then
      .ok (taken.drop (c.width - c.text.length)).reverse
    else .error .outOfRange
  | _ => .ok (c.text.reverse ++ taken).reverse

/-- What a sweep does with the character it stands on. -/
inductive Move (σ : Type) where
  | halt (s : σ)
  | take (s : σ)
  /-- Takes the character and the one after it. -/
  | pair (s : σ)

structure Swept (σ : Type) where
  state : σ
  cursor : Cursor
  /-- The bytes before the character, last byte first. -/
  taken : Text

/-- Takes characters, each as `spell` says, as long as `step` goes on, at most `fuel` times. -/
def sweepFrom {σ : Type} (spell : Cursor → Text) (step : σ → Cursor → Text → Move σ) :
    Nat → σ → Cursor → Text → Except (Refusal SyntaxError) (Swept σ)
  | 0, s, c, taken => .ok ⟨s, c, taken⟩
  | fuel + 1, s, c, taken =>
    match step s c taken with
    | .halt s => .ok ⟨s, c, taken⟩
    | .take s => do sweepFrom spell step fuel s (← c.advance) ((spell c).reverse ++ taken)
    | .pair s => do
      let second ← c.advance
      sweepFrom spell step fuel s (← second.advance)
        ((spell second).reverse ++ ((spell c).reverse ++ taken))

/-- A sweep from here; the bytes taken so far are given to `step` last first. -/
def sweep {σ : Type} (c : Cursor) (spell : Cursor → Text) (step : σ → Cursor → Text → Move σ)
    (s : σ) : Except (Refusal SyntaxError) (Swept σ) :=
  sweepFrom spell step (c.rest.length + 3) s c.opening []

/-- The bytes of a character with the escaped newlines as they are written. -/
def spelling (c : Cursor) : Text := if c.rune == .join then c.text ++ "\\\n" else c.text

end Cursor

end ShellToDeno.Shell
