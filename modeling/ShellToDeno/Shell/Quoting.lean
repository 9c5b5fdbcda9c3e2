import ShellToDeno.Text.Utf8

/-! What the shell reads from quoted text: bare words, double quotes and ANSI-C strings. -/
namespace ShellToDeno.Shell

/-- A backslash takes the next byte literally; with a newline the pair disappears. -/
def unescapeWord : Text → Text
  | [] => []
  | Ascii.backslash :: Ascii.newline :: rest => unescapeWord rest
  | Ascii.backslash :: b :: rest => b :: unescapeWord rest
  | b :: rest => b :: unescapeWord rest

/-- Bytes that a backslash makes literal inside double quotes. -/
def isQuotedSpecial (b : UInt8) : Bool := b == '$' || b == '`' || b == '"' || b == '\\'

def unescapeDoubleQuoted : Text → Text
  | [] => []
  | Ascii.backslash :: b :: rest =>
    if isQuotedSpecial b then b :: unescapeDoubleQuoted rest
    else if b == Ascii.newline then unescapeDoubleQuoted rest
    else Ascii.backslash :: unescapeDoubleQuoted (b :: rest)
  | b :: rest => b :: unescapeDoubleQuoted rest

def digitValue? (base : Nat) (b : UInt8) : Option Nat :=
  let value :=
    if Text.isDigit b then b.toNat - 48
    else if 'a' ≤ b && b ≤ 'f' then b.toNat - 87
    else if 'A' ≤ b && b ≤ 'F' then b.toNat - 55
    else base
  if value < base then some value else none

def isBaseDigit (base : Nat) (b : UInt8) : Bool := (digitValue? base b).isSome

def digitsValue (base : Nat) (digits : Text) : Nat :=
  digits.foldl (fun n b => n * base + (digitValue? base b).getD 0) 0

/-- A character given by up to `most` digits after `lead` other bytes. -/
def codeEscape? (base most lead : Nat) (t : Text) : Option (Text × Nat) :=
  let digits := (t.take most).takeWhile (isBaseDigit base)
  if digits.isEmpty then none
  else some (Utf8.ofCode (digitsValue base digits), lead + digits.length)

/-- What a backslash before this text stands for, and how many bytes of the text belong to it. -/
def ansiEscape? : Text → Option (Text × Nat)
  | [] => none
  | b :: rest =>
    match Char.ofNat b.toNat with
    | '\\' | '"' | '$' | '\'' | '?' => some ([b], 1)
    | 'a' => some ([0x07], 1)
    | 'b' => some ([0x08], 1)
    | 'e' | 'E' => some ([0x1B], 1)
    | 'f' => some ([0x0C], 1)
    | 'n' => some ([0x0A], 1)
    | 'r' => some ([0x0D], 1)
    | 't' => some ([0x09], 1)
    | 'v' => some ([0x0B], 1)
    | 'x' => codeEscape? 16 2 1 rest
    | 'u' => codeEscape? 16 4 1 rest
    | 'U' => codeEscape? 16 8 1 rest
    | 'c' =>
      match rest with
      | [] | Ascii.newline :: _ => none
      | control :: _ =>
        let width := match Utf8.next? rest with
          | some (c, _) => c.utf8Size
          | none => 1
        some (Utf8.ofCode (control.toNat % 32), 1 + width)
    | _ => codeEscape? 8 3 0 (b :: rest)

/-- Walks the body of an ANSI-C string while `skip` bytes of an escape are still to be passed. -/
def ansiFrom : Nat → Text → Text
  | _, [] => []
  | skip + 1, _ :: rest => ansiFrom skip rest
  | 0, b :: rest =>
    if b == Ascii.backslash then
      match ansiEscape? rest with
      | some (value, width) => value ++ ansiFrom width rest
      | none => b :: ansiFrom 0 rest
    else b :: ansiFrom 0 rest

/-- The text between the quotes of `$'...'`, its escapes resolved. -/
def ansiUnescape (s : Text) : Text := ansiFrom 0 s

end ShellToDeno.Shell
