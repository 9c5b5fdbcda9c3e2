import ShellToDeno.Text

/-!
Reading a text as UTF-8, one character at a time. A byte that starts no well-formed character is
passed over alone.
-/
namespace ShellToDeno.Utf8

def encode (c : Char) : Text := String.utf8EncodeChar c

/-- U+FFFD, which stands for what has no character. -/
def replacement : Text := [0xEF, 0xBF, 0xBD]

/-- The character with a given code, or the replacement character for surrogates and beyond. -/
def ofCode (n : Nat) : Text := if n.isValidChar then encode (Char.ofNat n) else replacement

def continues (b : UInt8) : Bool := 0x80 ≤ b && b ≤ 0xBF

def low (b : UInt8) : Nat := b.toNat % 64

/-- The first character and the text after it, if the text starts with a well-formed one. -/
def next? : Text → Option (Char × Text)
  | [] => none
  | a :: rest =>
    if a < 0x80 then some (Char.ofNat a.toNat, rest)
    else if 0xC2 ≤ a && a ≤ 0xDF then
      match rest with
      | b :: rest =>
        if continues b then some (Char.ofNat ((a.toNat - 0xC0) * 64 + low b), rest) else none
      | [] => none
    else if 0xE0 ≤ a && a ≤ 0xEF then
      match rest with
      | b :: c :: rest =>
        let floor : UInt8 := if a == 0xE0 then 0xA0 else 0x80
        let ceiling : UInt8 := if a == 0xED then 0x9F else 0xBF
        if floor ≤ b && b ≤ ceiling && continues c then
          some (Char.ofNat (((a.toNat - 0xE0) * 64 + low b) * 64 + low c), rest)
        else none
      | _ => none
    else if 0xF0 ≤ a && a ≤ 0xF4 then
      match rest with
      | b :: c :: d :: rest =>
        let floor : UInt8 := if a == 0xF0 then 0x90 else 0x80
        let ceiling : UInt8 := if a == 0xF4 then 0x8F else 0xBF
        if floor ≤ b && b ≤ ceiling && continues c && continues d then
          some (Char.ofNat ((((a.toNat - 0xF0) * 64 + low b) * 64 + low c) * 64 + low d), rest)
        else none
      | _ => none
    else none

/-- One step through a text: a character with its bytes, or a byte that is no character. -/
inductive Piece where
  | char (c : Char)
  | stray (b : UInt8)
  deriving DecidableEq, Repr

/-- Walks a text while `skip` bytes of the character just met are still to be passed. -/
def piecesFrom : Nat → Text → List Piece
  | _, [] => []
  | skip + 1, _ :: rest => piecesFrom skip rest
  | 0, b :: rest =>
    match next? (b :: rest) with
    | some (c, _) => .char c :: piecesFrom (c.utf8Size - 1) rest
    | none => .stray b :: piecesFrom 0 rest

def pieces (t : Text) : List Piece := piecesFrom 0 t

def Piece.bytes : Piece → Text
  | .char c => encode c
  | .stray b => [b]

def isValid (t : Text) : Bool := (pieces t).all fun
  | .char _ => true
  | .stray _ => false

/-- Each stray byte becomes the replacement character. -/
def repair (t : Text) : Text := (pieces t).flatMap fun
  | .char c => encode c
  | .stray _ => replacement

/-- White space in the sense of the Unicode property. -/
def isBlank (c : Char) : Bool :=
  let n := c.toNat
  (9 ≤ n && n ≤ 13) || n == 0x20 || n == 0x85 || n == 0xA0 || n == 0x1680 ||
    (0x2000 ≤ n && n ≤ 0x200A) || n == 0x2028 || n == 0x2029 || n == 0x202F || n == 0x205F ||
    n == 0x3000

def blank : Piece → Bool
  | .char c => isBlank c
  | .stray _ => false

/-- Drops the white space at both ends. -/
def trim (t : Text) : Text :=
  ((((pieces t).dropWhile blank).reverse.dropWhile blank).reverse).flatMap Piece.bytes

end ShellToDeno.Utf8
