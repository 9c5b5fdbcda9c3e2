import ShellToDeno.Text

/-! Colours for reports. -/
namespace ShellToDeno

inductive Tint where
  | heading | cyan | gray | green | red | yellow
  deriving DecidableEq, Repr

namespace Tint

/-- The attributes that start a tint, and those that end it. -/
def codes : Tint → Text × Text
  | heading => ("1;34", "22;0")
  | cyan => ("36", "0")
  | gray => ("90", "0")
  | green => ("32", "0")
  | red => ("31", "0")
  | yellow => ("33", "0")

/-- Paints a text, or leaves it plain. -/
def paint (colored : Bool) (tint : Tint) (t : Text) : Text :=
  if colored then "\x1b[" ++ tint.codes.1 ++ "m" ++ t ++ "\x1b[" ++ tint.codes.2 ++ "m" else t

end Tint

end ShellToDeno
