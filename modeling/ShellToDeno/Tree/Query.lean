import ShellToDeno.Tree.Node
import ShellToDeno.Contract
import ShellToDeno.Text.Quoted

/-!
Queries on trees. A query is a chain of selectors in parentheses, `(a) ("b") (_)`; it finds the
nodes that the last selector fits below nodes that the earlier ones fit, in their order.
-/
namespace ShellToDeno

inductive Selector where
  | any
  | of (kind : Kind)
  deriving DecidableEq, Repr

namespace Selector

def fits : Selector → Node → Bool
  | .any, _ => true
  | .of kind, n => n.kind == kind

def isBlank (b : UInt8) : Bool := b == ' ' || b == '\t' || b == '\n' || b == '\r' || b == 12

/-- The text up to the closing quote, escapes kept, and what follows the quote. -/
def quoted? : Text → Option (Text × Text)
  | [] => none
  | Ascii.doubleQuote :: rest => some ([], rest)
  | [Ascii.backslash] => none
  | Ascii.backslash :: b :: rest =>
    if b == Ascii.newline then none
    else (quoted? rest).map fun (body, after) => (Ascii.backslash :: b :: body, after)
  | b :: rest => (quoted? rest).map fun (body, after) => (b :: body, after)

/-- What stands between the parentheses of a selector, and the text after it. -/
def body? (t : Text) : Option (Selector × Text) :=
  match t with
  | Ascii.doubleQuote :: rest =>
    (quoted? rest).map fun (body, after) =>
      (.of (.ofName (Text.replaceAll "\\\"" "\"" body)), after)
  | _ =>
    let word := t.takeWhile Text.isWordByte
    if !Text.isName word then none
    else some (if word == "_" then .any else .of (.ofName word), t.drop word.length)

/-- A selector at the start of a text: what it is and how long. -/
def start? (t : Text) : Option (Selector × Nat) :=
  match t with
  | [] => none
  | b :: rest =>
    if b != '(' then none else
    match body? (rest.dropWhile isBlank) with
    | none => none
    | some (selector, after) =>
      match after.dropWhile isBlank with
      | c :: tail => if c == ')' then some (selector, t.length - tail.length) else none
      | [] => none

/-- The selectors of a pattern, each with the text it is written as; the bytes of the selector just
met are skipped. -/
def allFrom : Nat → Text → List (Selector × Text)
  | _, [] => []
  | skip + 1, _ :: rest => allFrom skip rest
  | 0, b :: rest =>
    match start? (b :: rest) with
    | some (selector, length) => (selector, (b :: rest).take length) :: allFrom (length - 1) rest
    | none => allFrom 0 rest

def all (pattern : Text) : List (Selector × Text) := allFrom 0 pattern

end Selector

/-- Reads a pattern; nothing but blanks may stand between its selectors. -/
def Selector.chain (pattern : Text) : Except Fault (List Selector) :=
  let found := Selector.all pattern
  let rest := found.foldl (fun rest (_, written) => Text.replaceFirst written [] rest) pattern
  if found.isEmpty || !(Utf8.trim rest).isEmpty then .error (.badQuery (Text.quote pattern))
  else .ok (found.map Prod.fst)

namespace Node

mutual

/-- The nodes a chain finds, in pre-order. -/
def select : List Selector → Node → List Node
  | [], _ => []
  | [last], ⟨kind, text, children, indent, start, stop⟩ =>
    let n : Node := ⟨kind, text, children, indent, start, stop⟩
    (if last.fits n then [n] else []) ++ selectAll [last] children
  | first :: next :: rest, ⟨kind, text, children, indent, start, stop⟩ =>
    let n : Node := ⟨kind, text, children, indent, start, stop⟩
    selectAll (if first.fits n then next :: rest else first :: next :: rest) children

def selectAll (chain : List Selector) : List Node → List Node
  | [] => []
  | n :: rest => select chain n ++ selectAll chain rest

end

mutual

/-- The first node a chain finds; nothing behind it is looked at. -/
def selectFirst : List Selector → Node → Option Node
  | [], _ => none
  | [last], ⟨kind, text, children, indent, start, stop⟩ =>
    let n : Node := ⟨kind, text, children, indent, start, stop⟩
    if last.fits n then some n else selectFirstOf [last] children
  | first :: next :: rest, ⟨kind, text, children, indent, start, stop⟩ =>
    let n : Node := ⟨kind, text, children, indent, start, stop⟩
    selectFirstOf (if first.fits n then next :: rest else first :: next :: rest) children

def selectFirstOf (chain : List Selector) : List Node → Option Node
  | [] => none
  | n :: rest => (selectFirst chain n).or (selectFirstOf chain rest)

end

mutual

theorem selectFirst_eq_head? :
    (chain : List Selector) → (n : Node) → selectFirst chain n = (select chain n).head?
  | [], _ => by rw [selectFirst, select, List.head?_nil]
  | [last], ⟨kind, text, children, indent, start, stop⟩ => by
    rw [selectFirst, select, List.head?_append, selectFirstOf_eq_head? [last] children]
    split <;> rfl
  | first :: next :: rest, ⟨kind, text, children, indent, start, stop⟩ => by
    rw [selectFirst, select, selectFirstOf_eq_head? _ children]

theorem selectFirstOf_eq_head? (chain : List Selector) :
    (nodes : List Node) → selectFirstOf chain nodes = (selectAll chain nodes).head?
  | [] => by rw [selectFirstOf, selectAll, List.head?_nil]
  | n :: rest => by
    rw [selectFirstOf, selectAll, List.head?_append, selectFirst_eq_head? chain n,
      selectFirstOf_eq_head? chain rest]

end

def query (n : Node) (pattern : Text) : Except Fault (List Node) :=
  (Selector.chain pattern).map fun chain => select chain n

def queryFirst (n : Node) (pattern : Text) : Except Fault (Option Node) :=
  (Selector.chain pattern).map fun chain => selectFirst chain n

theorem queryFirst_eq_head? (n : Node) (pattern : Text) :
    n.queryFirst pattern = (n.query pattern).map List.head? := by
  rw [queryFirst, query]
  cases Selector.chain pattern with
  | error fault => rfl
  | ok chain => exact congrArg Except.ok (selectFirst_eq_head? chain n)

end Node

end ShellToDeno
