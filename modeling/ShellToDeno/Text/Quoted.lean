import ShellToDeno.Text.Shown

/-!
A text in double quotes for a message. What cannot be shown is written as an escape, and so is each
byte that is no character.
-/
namespace ShellToDeno.Text

def hexDigit (n : Nat) : UInt8 := if n < 10 then UInt8.ofNat (48 + n) else UInt8.ofNat (87 + n)

/-- The last `width` hexadecimal digits of a number. -/
def hex : Nat → Nat → Text
  | 0, _ => []
  | width + 1, n => hex width (n / 16) ++ [hexDigit (n % 16)]

def quoteChar (c : Char) : Text :=
  match c with
  | '"' => "\\\""
  | '\\' => "\\\\"
  | '\n' => "\\n"
  | '\r' => "\\r"
  | '\t' => "\\t"
  | _ =>
    if isShown c then Utf8.encode c
    else match c.toNat with
      | 7 => "\\a"
      | 8 => "\\b"
      | 11 => "\\v"
      | 12 => "\\f"
      | n =>
        if n < 0x80 then "\\x" ++ hex 2 n else if n < 0x10000 then "\\u" ++ hex 4 n else
          "\\U" ++ hex 8 n

def quotePiece : Utf8.Piece → Text
  | .char c => quoteChar c
  | .stray b => "\\x" ++ hex 2 b.toNat

def quote (t : Text) : Text := "\"" ++ (Utf8.pieces t).flatMap quotePiece ++ "\""

end ShellToDeno.Text
