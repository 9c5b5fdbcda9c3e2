import ShellToDeno.Text.Integer

/-!
Numerals in several bases. A numeral may have a sign and a mark for its base, and underscores may
stand between its digits.
-/
namespace ShellToDeno.Numeral

inductive Problem where
  | malformed | outOfRange
  deriving DecidableEq, Repr

def digit? (b : UInt8) : Option Nat :=
  if Text.isDigit b then some (b.toNat - 48)
  else if 'a' ≤ b && b ≤ 'z' then some (b.toNat - 87)
  else if 'A' ≤ b && b ≤ 'Z' then some (b.toNat - 55)
  else none

/-- The value of the digits that follow a value; it must stay below 2^64. -/
def magnitude (base : Nat) : Nat → Text → Except Problem Nat
  | n, [] => .ok n
  | n, b :: rest =>
    if b == '_' then magnitude base n rest else
    match digit? b with
    | none => .error .malformed
    | some d =>
      if base ≤ d then .error .malformed
      else if Integer.count ≤ n * base + d then .error .outOfRange
      else magnitude base (n * base + d) rest

/-- The base of a numeral without sign, and the text after the mark of the base. -/
def base (t : Text) : Nat × Text :=
  match t with
  | 48 :: mark :: digit :: rest =>
    if Text.isOneOf "bB" mark then (2, digit :: rest)
    else if Text.isOneOf "oO" mark then (8, digit :: rest)
    else if Text.isOneOf "xX" mark then (16, digit :: rest)
    else (8, mark :: digit :: rest)
  | 48 :: rest => (8, rest)
  | _ => (10, t)

/-- Whether every underscore stands between digits; `after` tells whether a digit came before. -/
def separated (after : Bool) : Text → Bool
  | [] => true
  | b :: rest =>
    if b == '_' then after && !rest.isEmpty && separated false rest
    else separated true rest

/-- Whether the underscores of a numeral without sign are in place. The mark of a base counts as a
digit. -/
def isSeparated (t : Text) : Bool :=
  match base t with
  | (10, rest) => separated false rest
  | (_, rest) => separated true rest

/-- The value of a numeral that fits in 64 bits with a sign. -/
def read (t : Text) : Except Problem Int := do
  let negative := Text.begins "-" t
  let digits := if negative || Text.begins "+" t then t.drop 1 else t
  if digits.isEmpty then throw .malformed
  let (base, rest) := base digits
  let n ← magnitude base 0 rest
  if !isSeparated digits then throw .malformed
  let value : Int := if negative then -(n : Int) else n
  if Integer.least ≤ value ∧ value ≤ Integer.greatest then return value else throw .outOfRange

end ShellToDeno.Numeral
