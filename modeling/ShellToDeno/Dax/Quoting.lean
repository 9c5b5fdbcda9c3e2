import ShellToDeno.Text

/-! Quoting of arguments inside a dax command string. -/
namespace ShellToDeno.Dax

def isBareByte (b : UInt8) : Bool := Text.isWordByte b || b == '+' || b == '-' || b == '.'

def bareFrom : Text → Bool
  | [] => true
  | Ascii.doubleQuote :: Ascii.singleQuote :: Ascii.doubleQuote :: rest => bareFrom rest
  | b :: rest => isBareByte b && bareFrom rest

/-- Whether a text may stand unquoted: plain characters and double-quoted apostrophes. -/
def isBare (s : Text) : Bool := !s.isEmpty && bareFrom s

/-- The inside of a single-quoted string, where an apostrophe leaves the quotes and comes back. -/
def singleQuoteInnards (s : Text) : Text := Text.replaceAll "'" "'\"'\"'" s

/-- Characters of a bare shell word that a command string would read otherwise. -/
def isWordSpecial (b : UInt8) : Bool :=
  b == '\'' || b == '*' || b == '!' || b == '{' || b == '}' || b == ' '

def wordFrom (quoted : Bool) : Text → Text
  | [] => if quoted then "\"" else []
  | b :: rest =>
    if isWordSpecial b then (if quoted then [] else ("\"" : Text)) ++ b :: wordFrom true rest
    else (if quoted then ("\"" : Text) else []) ++ b :: wordFrom false rest

/-- A bare shell word as an argument: each run of special characters in double quotes. -/
def wordArgument (s : Text) : Text := wordFrom false s

end ShellToDeno.Dax
