import ShellToDeno.Settings.Value
import ShellToDeno.Text.Integer
import ShellToDeno.Text.Quoted

/-!
Single values of a settings file: what a word without quotes stands for, and texts in quotes.
-/
namespace ShellToDeno.Settings.Yaml

inductive Problem where
  | mappingValue | missingColon | badStart | endInQuotes | badEscape | entryNotAllowed
  | listEnd | recordEnd | noContent | noKey | noItem
  deriving DecidableEq, Repr

namespace Problem

def message : Problem → Text
  | mappingValue => "mapping values are not allowed in this context"
  | missingColon => "could not find expected ':'"
  | badStart => "found character that cannot start any token"
  | endInQuotes => "found unexpected end of stream"
  | badEscape => "found unknown escape character"
  | entryNotAllowed => "block sequence entries are not allowed in this context"
  | listEnd => "did not find expected ',' or ']'"
  | recordEnd => "did not find expected ',' or '\x7d'"
  | noContent => "did not find expected node content"
  | noKey => "did not find expected key"
  | noItem => "did not find expected '-' indicator"

/-- Whether a problem is seen in the characters; others are seen in how values follow each other. -/
def inCharacters : Problem → Bool
  | listEnd => false
  | recordEnd => false
  | noContent => false
  | noKey => false
  | noItem => false
  | _ => true

end Problem

inductive Error where
  /-- A problem with a value that starts on one line, met on another. Lines are counted from 0. -/
  | malformed (problem : Problem) (start line : Nat)
  /-- The whole file is a single value or a list. Lines are counted from 1. -/
  | notRecord (line : Nat) (tag : Text) (value : Option Text)
  /-- A key that is used twice, with the lines counted from 1. -/
  | repeatedKey (key : Text) (first second : Nat)
  deriving DecidableEq, Repr

namespace Error

/-- A value in a message; a long one is cut. -/
def excerpt (value : Text) : Text :=
  if value.length > 10 then (" \x60" : Text) ++ value.take 7 ++ "...\x60"
  else (" \x60" : Text) ++ value ++ "\x60"

def message : Error → Text
  | .malformed problem start line =>
    let found := if start == 0 then line else start
    let shown := if problem.inCharacters && found != 0 then found + 1 else found
    let place : Text := if shown == 0 then [] else "line " ++ Text.ofNat shown ++ ": "
    ("yaml: " : Text) ++ place ++ problem.message
  | .notRecord line tag value =>
    ("yaml: unmarshal errors:\n  line " : Text) ++ Text.ofNat line ++
      ": cannot unmarshal " ++ tag ++
      ((value.map excerpt).getD []) ++ " into map[string]interface \x7b\x7d"
  | .repeatedKey key first second =>
    ("yaml: unmarshal errors:\n  line " : Text) ++ Text.ofNat second ++ ": mapping key " ++
      Text.quote key ++ " already defined at line " ++ Text.ofNat first

end Error

/-- A decimal fraction, with an exponent or without. -/
structure Decimal where
  negative : Bool
  /-- The digits of the whole part and of the fraction, and where the point is among them. -/
  digits : Text
  point : Int

namespace Decimal

/-- Reads the digits after the sign. -/
def unsigned? (negative : Bool) (t : Text) : Option Decimal :=
  let whole := t.takeWhile Text.isDigit
  let afterWhole := t.drop whole.length
  let (fraction, rest) :=
    if Text.begins "." afterWhole then
      let fraction := (afterWhole.drop 1).takeWhile Text.isDigit
      (fraction, afterWhole.drop (1 + fraction.length))
    else ([], afterWhole)
  if whole.isEmpty && fraction.isEmpty then none else
  let digits := whole ++ fraction
  match rest with
  | [] => some ⟨negative, digits, whole.length⟩
  | mark :: exponent =>
    if !Text.isOneOf "eE" mark then none else
    let magnitude := if Text.isOneOf "+-" (exponent.headD 0) then exponent.drop 1 else exponent
    if !Text.isDigits magnitude || magnitude.length > 3 then none else
    let size : Int := Integer.naturalValue magnitude
    let shift := if Text.begins "-" exponent then -size else size
    some ⟨negative, digits, whole.length + shift⟩

def read? (t : Text) : Option Decimal :=
  if Text.begins "-" t then unsigned? true (t.drop 1)
  else if Text.begins "+" t then unsigned? false (t.drop 1)
  else unsigned? false t

/-- The number without an exponent and without digits that it does not need. -/
def shown (d : Decimal) : Text :=
  let zeros (n : Int) : Text := List.replicate n.toNat 48
  let digits := zeros (1 - d.point) ++ d.digits ++ zeros (d.point - d.digits.length)
  let place := max d.point 1
  let whole := (digits.take place.toNat).dropWhile (· == 48)
  let fraction := Text.dropEndWhile (· == 48) (digits.drop place.toNat)
  let sign : Text := if d.negative then "-" else []
  let whole : Text := if whole.isEmpty then "0" else whole
  if fraction.isEmpty then sign ++ whole else sign ++ whole ++ "." ++ fraction

end Decimal

/-- What a text without quotes stands for. -/
def plain (t : Text) : Value :=
  let nulls : List Text := ["", "~", "null", "Null", "NULL"]
  let yes : List Text := ["true", "True", "TRUE"]
  let no : List Text := ["false", "False", "FALSE"]
  if nulls.contains t then .null
  else if yes.contains t then .flag true
  else if no.contains t then .flag false
  else if !Text.isOneOf "+-.0123456789" (t.headD 0) then .text t
  else
    match Numeral.read (t.filter fun b => !Text.isOneOf "_" b) with
    | .ok n => .number (Text.ofInt n)
    | .error _ =>
      match Decimal.read? (t.filter fun b => !Text.isOneOf "_" b) with
      | some d => .number d.shown
      | none => .text t

def isSpace (b : UInt8) : Bool := Text.isOneOf " \t" b

def isSpaceOrBreak (b : UInt8) : Bool := Text.isOneOf " \t\n" b

/-- How line ends and the blanks around them are read inside a text: one becomes a blank, and of
several all but one stay. -/
def fold (blanks : Text) : Text :=
  match blanks.count Ascii.newline with
  | 0 => blanks
  | 1 => " "
  | n + 2 => List.replicate (n + 1) Ascii.newline

def hexValue (digits : Text) : Option Nat :=
  digits.foldlM (fun n b => (Numeral.digit? b).bind fun d =>
    if d < 16 then some (n * 16 + d) else none) 0

/-- What an escape stands for, and how many bytes after the backslash it takes. -/
def escape? (t : Text) : Option (Text × Nat) :=
  let coded (width : Nat) : Option (Text × Nat) :=
    let digits := (t.drop 1).take width
    if digits.length < width then none
    else (hexValue digits).map fun n => (Utf8.ofCode n, width + 1)
  match t with
  | [] => none
  | b :: _ =>
    if b == 'x' then coded 2 else if b == 'u' then coded 4 else if b == 'U' then coded 8 else
    let table : List (Char × Nat) :=
      [('0', 0), ('a', 7), ('b', 8), ('t', 9), ('\t', 9), ('n', 10), ('v', 11), ('f', 12),
        ('r', 13), ('e', 27), (' ', 32), ('"', 34), ('/', 47), ('\\', 92), ('N', 0x85), ('_', 0xA0),
       ('L', 0x2028), ('P', 0x2029)]
    (table.find? fun (c, _) => c.toUInt8 == b).map fun (_, code) => (Utf8.ofCode code, 1)

/-- A part of the text that has been read: the value, the rest, and the line where it starts. -/
structure Part (α : Type) where
  value : α
  rest : Text
  line : Nat

/-- Reads up to the end of a text in single quotes; `done` is in reverse. -/
def single (start : Nat) : Nat → Nat → Text → Text → Except Error (Part Text)
  | 0, line, _, _ => .error (.malformed .endInQuotes start line)
  | fuel + 1, line, done, t =>
    match t with
    | [] => .error (.malformed .endInQuotes start line)
    | 39 :: 39 :: rest => single start fuel line (39 :: done) rest
    | 39 :: rest => .ok ⟨done.reverse, rest, line⟩
    | b :: rest =>
      let blanks := t.takeWhile isSpaceOrBreak
      if blanks.contains Ascii.newline then
        single start fuel (line + blanks.count Ascii.newline) ((fold blanks).reverse ++ done)
          (t.drop blanks.length)
      else single start fuel line (b :: done) rest

/-- Reads up to the end of a text in double quotes; `done` is in reverse. -/
def double (start : Nat) : Nat → Nat → Text → Text → Except Error (Part Text)
  | 0, line, _, _ => .error (.malformed .endInQuotes start line)
  | fuel + 1, line, done, t =>
    match t with
    | [] => .error (.malformed .endInQuotes start line)
    | 34 :: rest => .ok ⟨done.reverse, rest, line⟩
    | 92 :: 10 :: rest => double start fuel (line + 1) done (rest.dropWhile isSpace)
    | 92 :: rest =>
      match escape? rest with
      | some (text, width) => double start fuel line (text.reverse ++ done) (rest.drop width)
      | none => .error (.malformed .badEscape start line)
    | b :: rest =>
      let blanks := t.takeWhile isSpaceOrBreak
      if blanks.contains Ascii.newline then
        double start fuel (line + blanks.count Ascii.newline) ((fold blanks).reverse ++ done)
          (t.drop blanks.length)
      else double start fuel line (b :: done) rest

/-- Reads a text in quotes from its first quote on. -/
def quoted (line : Nat) (t : Text) : Except Error (Part Text) :=
  match t with
  | 39 :: rest => single line (t.length + 1) line [] rest
  | _ => double line (t.length + 1) line [] (t.drop 1)

end ShellToDeno.Settings.Yaml
