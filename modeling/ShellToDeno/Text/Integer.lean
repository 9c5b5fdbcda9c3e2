import ShellToDeno.Text

/-! Signed 64-bit integers as they are written and as they wrap around. -/
namespace ShellToDeno.Integer

def least : Int := -0x8000000000000000

def greatest : Int := 0x7fffffffffffffff

/-- The number of 64-bit integers. -/
def count : Nat := 0x10000000000000000

/-- The 64-bit integer congruent to a given one. -/
def wrap (n : Int) : Int := n.bmod count

def naturalValue (digits : Text) : Nat := digits.foldl (fun n b => n * 10 + (b.toNat - 48)) 0

/-- Whether a text is an optional minus sign and digits. -/
def isWritten : Text → Bool
  | Ascii.minus :: digits => Text.isDigits digits
  | digits => Text.isDigits digits

/-- The value of a written integer, whatever its size. -/
def value : Text → Int
  | Ascii.minus :: digits => -(naturalValue digits : Int)
  | digits => naturalValue digits

/-- The value of a written integer that fits in 64 bits. -/
def read? (t : Text) : Option Int :=
  if isWritten t && decide (least ≤ value t) && decide (value t ≤ greatest) then some (value t)
  else none

/-- The value of a written integer, or the nearest end of the 64-bit range. -/
def readClamped (t : Text) : Int := max least (min greatest (value t))

end ShellToDeno.Integer
