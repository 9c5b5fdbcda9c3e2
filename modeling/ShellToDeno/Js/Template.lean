import ShellToDeno.Js.StringLiteral

/-!
The inside of a template literal. Only what would end the literal, start a substitution or be
changed by reading is escaped; newlines and tabs stay as they are.
-/
namespace ShellToDeno.Js

def templateByte (b : UInt8) : Text :=
  if b == '\r' then "\\r"
  else if b < 0x20 && b != '\n' && b != '\t' then "\\x" ++ hexByte b.toNat
  else [b]

def templateInnards : Text → Text
  | [] => []
  | Ascii.backslash :: rest => "\\\\" ++ templateInnards rest
  | Ascii.backtick :: rest => "\\`" ++ templateInnards rest
  | Ascii.dollar :: Ascii.openBrace :: rest => "\\$\x7b" ++ templateInnards rest
  | b :: rest => templateByte b ++ templateInnards rest

/-- A template literal around innards. -/
def template (innards : Text) : Text := "`" ++ innards ++ "`"

/-- A substitution inside a template literal. -/
def substitution (expr : Text) : Text := "$\x7b" ++ expr ++ "\x7d"

end ShellToDeno.Js
