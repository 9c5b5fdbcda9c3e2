import ShellToDeno.Js.StringLiteral

/-! Property accesses: a dot and an identifier where possible, a bracketed literal elsewhere. -/
namespace ShellToDeno.Js

def reservedWords : List Text :=
  List.map Text.ofString ["break", "case", "catch", "class", "const", "continue", "debugger",
    "default", "delete", "do",
    "else", "export", "extends", "finally", "for", "function", "if", "import", "in", "instanceof",
    "new", "return", "super", "switch", "this", "throw", "try", "typeof", "var", "void", "while",
    "with", "yield"]

def isIdentifierByte (b : UInt8) : Bool := Text.isWordByte b || b == '$'

def isIdentifier : Text → Bool
  | [] => false
  | b :: rest => (Text.isLetter b || b == '_' || b == '$') && rest.all isIdentifierByte

def isPlainKey (key : Text) : Bool := isIdentifier key && !reservedWords.contains key

def propertyAccess (key : Text) : Text :=
  if isPlainKey key then "." ++ key else "[" ++ stringLiteral key ++ "]"

/-- Every character that no identifier may hold becomes an underscore. -/
def identifierChar : Utf8.Piece → Text
  | .char c => if c.toNat < 0x80 && isIdentifierByte c then [c.toUInt8] else "_"
  | .stray _ => "_"

/-- An identifier for a name of any bytes. -/
def identifier (name : Text) : Text :=
  let flat := (Utf8.pieces name).flatMap identifierChar
  let started := match flat with
    | [] => "_"
    | b :: _ => if Text.isDigit b then "_" ++ flat else flat
  if isPlainKey started then started else "_" ++ started

end ShellToDeno.Js
