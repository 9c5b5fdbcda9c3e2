import ShellToDeno.Text

/-!
Numbers in double precision, read from text and compared. A finite one is kept as the whole number
of steps of the smallest positive double, so that comparing is exact.
-/
namespace ShellToDeno

inductive Double where
  | notANumber
  | infinite (negative : Bool)
  /-- A multiple of 2 ^ (-1074). -/
  | finite (steps : Int)
  deriving DecidableEq, Repr

namespace Double

/-- The nearest whole number to a quotient, a tie going to the even one. -/
def roundDiv (n d : Nat) : Nat :=
  let q := n / d
  let r := n % d
  if 2 * r < d then q else if 2 * r > d then q + 1 else if q % 2 == 0 then q else q + 1

/-- The double nearest to a quotient in steps, none when it is too large. -/
def nearest? (n d : Nat) : Option Nat :=
  let scaled := n * Nat.pow 2 1074
  let bits := Nat.log2 (scaled / d) + 1
  let unit := Nat.pow 2 (bits - 53)
  let steps := unit * roundDiv scaled (d * unit)
  if steps < Nat.pow 2 (1024 + 1074) then some steps else none

/-- The double nearest to `n * base ^ exponent`. Far outside the range of doubles the power is not
computed. -/
def scaled? (n base : Nat) (exponent : Int) : Option Nat :=
  if n == 0 then some 0
  else if exponent ≥ 0 then
    if exponent > 5000 then none else nearest? (n * Nat.pow base exponent.toNat) 1
  else if exponent < -5000 - (Nat.log2 n : Int) then some 0
  else nearest? n (Nat.pow base (-exponent).toNat)

def lower (b : UInt8) : UInt8 := if 'A' ≤ b && b ≤ 'Z' then b + 32 else b

def hexValue? (b : UInt8) : Option Nat :=
  if Text.isDigit b then some (b.toNat - 48)
  else if 'a' ≤ lower b && lower b ≤ 'f' then some ((lower b).toNat - 87)
  else none

def digitValue? (base : Nat) (b : UInt8) : Option Nat :=
  (hexValue? b).filter (· < base)

/-- Digits with at most one point among them. -/
structure Mantissa where
  value : Nat
  /-- Digits after the point. -/
  places : Nat
  digits : Nat
  point : Bool

/-- Reads a mantissa; underscores are passed over. -/
def mantissa (base : Nat) (m : Mantissa) : Text → Mantissa × Text
  | [] => (m, [])
  | b :: rest =>
    if b == '_' then mantissa base m rest
    else if b == '.' && !m.point then mantissa base { m with point := true } rest
    else match digitValue? base b with
      | some d =>
        let places := if m.point then m.places + 1 else m.places
        mantissa base ⟨m.value * base + d, places, m.digits + 1, m.point⟩ rest
      | none => (m, b :: rest)

/-- Reads an exponent of decimal digits up to the end of the text. -/
def exponentValue? (t : Text) : Option Int :=
  let (negative, digits) : Bool × Text := match t with
    | b :: rest => if b == '-' then (true, rest) else if b == '+' then (false, rest) else (false, t)
    | [] => (false, [])
  let plain := digits.filter fun b => !Text.isOneOf "_" b
  if !(digits.head?.map Text.isDigit).getD false || !plain.all Text.isDigit then none else
  let value := plain.foldl (fun (e : Nat) b => if e < 10000 then e * 10 + (b.toNat - 48) else e) 0
  some (if negative then -(value : Int) else value)

/-- Underscores stand only between digits, or between a base mark and a digit. -/
def underscoresFit (hex : Bool) : UInt8 → Text → Bool
  | before, [] => before != '_'
  | before, b :: rest =>
    if Text.isDigit b || (hex && (hexValue? b).isSome) then underscoresFit hex '0' rest
    else if b == '_' then before == '0' && underscoresFit hex '_' rest
    else before != '_' && underscoresFit hex '!' rest

def underscoresOk (unsigned : Text) : Bool :=
  match unsigned with
  | a :: b :: rest =>
    if a == '0' && Text.isOneOf "box" (lower b) then underscoresFit (lower b == 'x') '0' rest
    else underscoresFit false '^' unsigned
  | _ => underscoresFit false '^' unsigned

/-- The steps of an unsigned number, decimal or hexadecimal. -/
def unsigned? (t : Text) : Option Nat :=
  let hex := t.length > 2 && t.head? == some ('0' : Char).toUInt8 &&
    (t[1]?.map lower) == some ('x' : Char).toUInt8
  let base := if hex then 16 else 10
  let mark : UInt8 := if hex then 'p' else 'e'
  let (m, rest) := mantissa base ⟨0, 0, 0, false⟩ (if hex then t.drop 2 else t)
  if m.digits == 0 || !underscoresOk t then none else
  match rest with
  | [] => if hex then none else scaled? m.value 10 (-m.places)
  | b :: after =>
    if lower b != mark then none else
    match exponentValue? after with
    | none => none
    | some e =>
      if hex then scaled? m.value 2 (e - 4 * m.places) else scaled? m.value 10 (e - m.places)

def special? (t : Text) : Option Double :=
  let word := t.map lower
  if word == "inf" || word == "infinity" then some (.infinite false) else none

/-- Reads a whole text as a number; a number too large for a double is none. -/
def read? (t : Text) : Option Double :=
  if t.map lower == "nan" then some .notANumber else
  let (negative, body) : Bool × Text := match t with
    | b :: rest => if b == '-' then (true, rest) else if b == '+' then (false, rest) else (false, t)
    | [] => (false, [])
  match special? body with
  | some _ => some (.infinite negative)
  | none => (unsigned? body).map fun steps =>
    .finite (if negative then -(steps : Int) else steps)

def equal : Double → Double → Bool
  | .finite a, .finite b => a == b
  | .infinite a, .infinite b => a == b
  | _, _ => false

def less : Double → Double → Bool
  | .finite a, .finite b => a < b
  | .infinite true, .finite _ => true
  | .finite _, .infinite false => true
  | .infinite true, .infinite false => true
  | _, _ => false

end Double

end ShellToDeno
