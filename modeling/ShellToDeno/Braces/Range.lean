import ShellToDeno.Contract
import ShellToDeno.Text.Integer

/-!
Brace expressions such as a comma list or an integer range. Bounds and steps are 64-bit integers,
and the walk from one bound to the other wraps around as they do.
-/
namespace ShellToDeno.Braces

/-- The written parts of an integer range. -/
structure Range where
  first : Text
  last : Text
  step : Option Text
  deriving DecidableEq, Repr

namespace Range

/-- Reads what stands between the braces. -/
def read? (body : Text) : Option Range :=
  match Text.splitOn ".." body with
  | [first, last] =>
    if Integer.isWritten first && Integer.isWritten last then some ⟨first, last, none⟩ else none
  | [first, last, step] =>
    if Integer.isWritten first && Integer.isWritten last && Integer.isWritten step then
      some ⟨first, last, some step⟩
    else none
  | _ => none

/-- A bound written with a leading zero. -/
def isPadded (bound : Text) : Bool :=
  match Text.cutStart "-" bound with
  | b :: _ :: _ => b == '0'
  | _ => false

def anyPadded (bounds : List Text) : Bool := bounds.any isPadded

/-- The step as a distance: 1 when absent or zero, none when it does not fit. -/
def distance? : Option Text → Option Int
  | none => some 1
  | some written =>
    (Integer.read? written).map fun s =>
      let size := if s < 0 then Integer.wrap (-s) else s
      if size = 0 then 1 else size

def inside (step last i : Int) : Bool :=
  (decide (0 < step) && decide (i ≤ last)) || (decide (step < 0) && decide (last ≤ i))

/-- The values met from `i` on, the ones met before in reverse order. -/
def walk (step last : Int) : Nat → Int → List Int → List Int
  | 0, _, met => met.reverse
  | fuel + 1, i, met =>
    if inside step last i then walk step last fuel (Integer.wrap (i + step)) (i :: met)
    else met.reverse

/-- After so many steps a walk has been at some value twice and never ends. -/
def walkLimit : Nat := Integer.count + 1

/-- Writes a value in at least `width` bytes, the sign counted; a width of zero pads nothing. -/
def pad (width : Nat) (i : Int) : Text :=
  if width = 0 then Text.ofInt i
  else
    let digits := Text.ofNat i.natAbs
    if i < 0 then "-" ++ List.replicate (width - 1 - digits.length) ('0' : UInt8) ++ digits
    else List.replicate (width - digits.length) ('0' : UInt8) ++ digits

def width (r : Range) : Nat :=
  if anyPadded [r.first, r.last] then max r.first.length r.last.length else 0

/-- The values of a range, none when a part of it does not fit in 64 bits. -/
def values? (r : Range) : Option (List Text) := do
  let first ← Integer.read? r.first
  let last ← Integer.read? r.last
  let size ← distance? r.step
  let step := if last < first then Integer.wrap (-size) else size
  return (walk step last walkLimit first []).map (pad r.width)

end Range

/-- What a brace expression stands for. -/
inductive Expansion where
  | literal (text : Text)
  | values (texts : List Text)
  deriving DecidableEq, Repr

def Expansion.texts : Expansion → List Text
  | .literal text => [text]
  | .values texts => texts

def Expansion.multiplies : Expansion → Bool
  | .literal _ => false
  | .values _ => true

/-- What stands between the braces, if the text is in braces. -/
def body? : Text → Option Text
  | Ascii.openBrace :: rest => Text.cutEnd? "\x7d" rest
  | _ => none

def expand (text : Text) : Except Fault Expansion :=
  match body? text with
  | none => .ok (.literal text)
  | some body =>
    if Text.contains body "," then .ok (.values (Text.splitOn "," body))
    else match (Range.read? body).bind Range.values? with
      | none => .ok (.literal text)
      | some [] => .error (.violated .postcondition ("range " ++ text ++ " expanded to nothing"))
      | some texts => .ok (.values texts)

end ShellToDeno.Braces
