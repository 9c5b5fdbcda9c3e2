/-!
Text is a list of bytes. Scripts, code and paths are mostly UTF-8, but nothing here depends on it,
and every offset, length and column counts bytes.
-/
namespace ShellToDeno

abbrev Text := List UInt8

namespace Ascii

@[match_pattern] abbrev newline : UInt8 := 10
@[match_pattern] abbrev doubleQuote : UInt8 := 34
@[match_pattern] abbrev dollar : UInt8 := 36
@[match_pattern] abbrev singleQuote : UInt8 := 39
@[match_pattern] abbrev star : UInt8 := 42
@[match_pattern] abbrev minus : UInt8 := 45
@[match_pattern] abbrev dot : UInt8 := 46
@[match_pattern] abbrev slash : UInt8 := 47
@[match_pattern] abbrev backslash : UInt8 := 92
@[match_pattern] abbrev backtick : UInt8 := 96
@[match_pattern] abbrev openBrace : UInt8 := 123
@[match_pattern] abbrev closeBrace : UInt8 := 125

end Ascii

namespace Text

def ofString (s : String) : Text := s.toByteArray.data.toList

instance : Coe String Text := ⟨ofString⟩

instance : Coe Char UInt8 := ⟨Char.toUInt8⟩

def ofNat (n : Nat) : Text := ofString n.repr

def ofInt : Int → Text
  | .ofNat n => ofNat n
  | .negSucc n => "-" ++ ofNat (n + 1)

/-- The rest of a text after a given start. -/
def cutStart? (start : Text) (t : Text) : Option Text :=
  if start.isPrefixOf t then some (t.drop start.length) else none

def cutStart (start t : Text) : Text := (cutStart? start t).getD t

def cutEnd? (ending : Text) (t : Text) : Option Text :=
  if ending.isSuffixOf t then some (t.take (t.length - ending.length)) else none

def cutEnd (ending t : Text) : Text := (cutEnd? ending t).getD t

/-- Splits at the first occurrence of a piece. -/
def cut? (piece : Text) : Text → Option (Text × Text)
  | [] => if piece.isEmpty then some ([], []) else none
  | b :: rest =>
    if piece.isPrefixOf (b :: rest) then some ([], (b :: rest).drop piece.length)
    else (cut? piece rest).map fun (before, after) => (b :: before, after)

def contains (t piece : Text) : Bool := (cut? piece t).isSome

/-- Whether a piece that is not empty stands at the start. -/
def begins (piece t : Text) : Bool := !piece.isEmpty && piece.isPrefixOf t

/-- Walks a text while `skip` bytes of the separator just met are still to be passed. -/
def splitFrom (separator : Text) : Nat → Text → List Text
  | _, [] => [[]]
  | skip + 1, _ :: rest => splitFrom separator skip rest
  | 0, b :: rest =>
    if begins separator (b :: rest) then [] :: splitFrom separator (separator.length - 1) rest
    else match splitFrom separator 0 rest with
      | [] => [[b]]
      | first :: others => (b :: first) :: others

/-- The parts of a text between the occurrences of a separator. -/
def splitOn (separator t : Text) : List Text := splitFrom separator 0 t

def join (separator : Text) (parts : List Text) : Text := separator.intercalate parts

def replaceFrom (piece new : Text) : Nat → Text → Text
  | _, [] => []
  | skip + 1, _ :: rest => replaceFrom piece new skip rest
  | 0, b :: rest =>
    if begins piece (b :: rest) then new ++ replaceFrom piece new (piece.length - 1) rest
    else b :: replaceFrom piece new 0 rest

/-- Replaces every occurrence of a piece, from the left and without overlaps. -/
def replaceAll (piece new t : Text) : Text := replaceFrom piece new 0 t

def replaceFirst (piece new t : Text) : Text :=
  match cut? piece t with
  | none => t
  | some (before, after) => before ++ new ++ after

def occurrences (piece t : Text) : Nat := (splitOn piece t).length - 1

def dropEndWhile (p : UInt8 → Bool) (t : Text) : Text := (t.reverse.dropWhile p).reverse

/-- The bytes from one offset up to another, none when the offsets do not fit. -/
def slice? (t : Text) (start stop : Int) : Option Text :=
  if 0 ≤ start ∧ start ≤ stop ∧ stop ≤ t.length then
    some ((t.drop start.toNat).take (stop - start).toNat)
  else none

/-- The bytes from one offset up to another, as far as the text reaches. -/
def slice (t : Text) (start stop : Nat) : Text := (t.drop start).take (stop - start)

/-- Byte order. -/
def lt : Text → Text → Bool
  | _, [] => false
  | [], _ :: _ => true
  | a :: s, b :: t => a < b || (a == b && lt s t)

def le (s t : Text) : Bool := !lt t s

def spaces (n : Nat) : Text := List.replicate n ' '

/-- Whether a byte is one of some characters. -/
def isOneOf (characters : Text) (b : UInt8) : Bool := characters.elem b

def isDigit (b : UInt8) : Bool := '0' ≤ b && b ≤ '9'

def isLetter (b : UInt8) : Bool := ('a' ≤ b && b ≤ 'z') || ('A' ≤ b && b ≤ 'Z')

/-- A letter, a digit or an underscore. -/
def isWordByte (b : UInt8) : Bool := isLetter b || isDigit b || b == '_'

/-- A shell name: a letter or underscore, then letters, digits and underscores. -/
def isName : Text → Bool
  | [] => false
  | b :: rest => (isLetter b || b == '_') && rest.all isWordByte

def isDigits (t : Text) : Bool := !t.isEmpty && t.all isDigit

end Text

end ShellToDeno
