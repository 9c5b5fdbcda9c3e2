import ShellToDeno.Tree.Node
import ShellToDeno.Shell.Script

/-!
Nodes over a source. What the grammar does not model, such as keywords, punctuation, blanks and
comments, lies in the gaps between the nodes it does; each gap is cut into leaves, so that a node's
children always cover it without a hole.
-/
namespace ShellToDeno

/-- A source and the stretches of its here-document bodies, closing lines included. -/
structure Source where
  text : Text
  bodies : List (Nat × Nat)

namespace Source

def size (s : Source) : Nat := s.text.length

def bodyAt? (s : Source) (offset : Nat) : Option Nat := s.bodies.lookup offset

/-- The blanks that start the line of an offset. -/
def indentAt (s : Source) (offset : Nat) : Text :=
  let onLine := ((s.text.take offset).reverse.takeWhile (· != Ascii.newline)).length
  (s.text.drop (offset - onLine)).takeWhile fun b => b == ' ' || b == '\t'

/-- A stretch moved into the source, with its end not before its start. -/
def clamp (s : Source) (start stop : Nat) : Nat × Nat :=
  let start := min start s.size
  (start, min (max stop start) s.size)

/-- The node over a stretch that lies in the source. -/
def node (s : Source) (kind : Kind) (start stop : Nat) (children : List Node) : Node :=
  ⟨kind, s.text.slice start stop, children, s.indentAt start, start, stop⟩

def leaf (s : Source) (kind : Kind) (start stop : Nat) : Node :=
  let (start, stop) := s.clamp start stop
  s.node kind start stop []

/-- Operators of more than one character, the longest first. -/
def operators : List Text :=
  List.map Text.ofString
    ["$((", "&>>", "<<<", "<<-", ";;&",
     "&&", "||", ";;", ";&", ">>", "&>", ">&", "<&", "<<", "<>", ">|",
     "((", "))", "$(", "$\x7b", "[[", "]]", "==", "!=", "=~", "+=", "|&"]

def isSpace (b : UInt8) : Bool := b == ' ' || b == '\t' || b == '\n' || b == '\r'

def startsOperator (b : UInt8) : Bool := Text.isOneOf ";&|<>()\x7b\x7d[]!=$\"'`" b

def operator? (t : Text) : Option Text :=
  match operators.find? (·.isPrefixOf t) with
  | some operator => some operator
  | none => match t with
    | b :: _ => if startsOperator b then some [b] else none
    | [] => none

/-- Whether a comment sign after the given byte starts a comment: it must start a word. -/
def commentAfter : Option UInt8 → Bool
  | none => true
  | some b => isSpace b || Text.isOneOf ";&|()" b

/-- The length of the white space at the start of a text; a here-document body ends it. -/
def spaceLength (s : Source) (first : Nat) : Nat → Text → Nat
  | _, [] => 0
  | offset, b :: rest =>
    if !isSpace b || (offset > first && (s.bodyAt? offset).isSome) then 0
    else s.spaceLength first (offset + 1) rest + 1

/-- The first token of a gap that is not empty: its kind and its length. -/
def gapToken (s : Source) (before : Option UInt8) (offset : Nat) (gap : Text) : Kind × Nat :=
  match s.bodyAt? offset with
  | some stop =>
    if stop ≤ offset + gap.length then (.heredocBody, stop - offset) else plain gap
  | none => plain gap
where
  plain (gap : Text) : Kind × Nat :=
    match gap with
    | [] => (.text, 0)
    | b :: _ =>
      if b == '\\' then (.text, 1)
      else if isSpace b then (.whitespace, s.spaceLength offset offset gap)
      else if b == '#' && commentAfter before then
        (.comment, (gap.takeWhile (· != Ascii.newline)).length)
      else match operator? gap with
        | some operator => (.ofName operator, operator.length)
        | none =>
          let word := gap.takeWhile fun b => !isSpace b && !startsOperator b && b != '\\'
          (.ofName word, word.length)

/-- Cuts a gap into leaves. The newline after a backslash is a leaf of its own, so that it can be
taken as part of the continuation. -/
def gapFrom (s : Source) : Nat → Option UInt8 → Nat → Text → List Node
  | 0, _, _, _ => []
  | _, _, _, [] => []
  | fuel + 1, before, offset, gap =>
    let (kind, length) := s.gapToken before offset gap
    let taken := gap.take length
    let rest := gap.drop length
    let found := s.leaf kind offset (offset + length)
    match kind, taken, rest with
    | .text, [Ascii.backslash], Ascii.newline :: after =>
      found :: s.leaf .whitespace (offset + 1) (offset + 2) ::
        s.gapFrom fuel (some Ascii.newline) (offset + 2) after
    | _, _, _ => found :: s.gapFrom fuel taken.getLast? (offset + length) rest

def gap (s : Source) (start stop : Nat) : List Node :=
  let before := if start == 0 then none else s.text[start - 1]?
  s.gapFrom (stop - start) before start (s.text.slice start stop)

/-- Fills the gaps before, between and after nodes; none when the nodes overlap or stick out. -/
def fill? (s : Source) (stop : Nat) : Nat → List Node → Option (List Node)
  | offset, [] => some (s.gap offset stop)
  | offset, n :: rest =>
    if n.start < offset || n.stop > stop then none
    else (s.fill? stop n.stop.toNat rest).map fun filled =>
      s.gap offset n.start.toNat ++ n :: filled

/-- Puts a node before the first that does not start before it. -/
def place (n : Node) : List Node → List Node
  | [] => [n]
  | m :: rest => if n.start ≤ m.start then n :: m :: rest else m :: place n rest

/-- The nodes by their starts; those that start together keep their order. -/
def inOrder (nodes : List Node) : List Node := nodes.foldr place []

/-- A node over a stretch with the given nodes inside it. Nodes that do not fit next to each other
cannot be shown, and then the node is a leaf. -/
def build (s : Source) (kind : Kind) (start stop : Nat) (inside : List Node) : Node :=
  let (start, stop) := s.clamp start stop
  match s.fill? stop start (inOrder inside) with
  | some children => s.node kind start stop children
  | none => s.leaf kind start stop

end Source

end ShellToDeno
