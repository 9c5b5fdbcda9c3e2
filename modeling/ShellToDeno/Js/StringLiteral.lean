import ShellToDeno.Text.Utf8

/-!
Double-quoted JavaScript string literals. Control characters and the two line separators are
escaped; bytes that are no character are replaced.
-/
namespace ShellToDeno.Js

def hexDigit (n : Nat) : UInt8 :=
  if n < 10 then '0' + UInt8.ofNat n else 'a' + UInt8.ofNat (n - 10)

/-- Two lower-case hexadecimal digits. -/
def hexByte (n : Nat) : Text := [hexDigit (n / 16 % 16), hexDigit (n % 16)]

def quotedChar (c : Char) : Text :=
  match c with
  | '"' => "\\\""
  | '\\' => "\\\\"
  | '\n' => "\\n"
  | '\r' => "\\r"
  | '\t' => "\\t"
  | '\x08' => "\\b"
  | '\x0c' => "\\f"
  | '\u2028' => "\\u2028"
  | '\u2029' => "\\u2029"
  | c => if c.toNat < 0x20 then "\\u00" ++ hexByte c.toNat else Utf8.encode c

/-- A byte that belongs to no character becomes the replacement character itself, not its escape. -/
def quotedPiece : Utf8.Piece → Text
  | .char c => quotedChar c
  | .stray _ => Utf8.replacement

def stringLiteral (s : Text) : Text := "\"" ++ (Utf8.pieces s).flatMap quotedPiece ++ "\""

end ShellToDeno.Js
