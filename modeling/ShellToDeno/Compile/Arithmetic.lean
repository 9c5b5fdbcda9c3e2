import ShellToDeno.Compile.Basic

/-!
Arithmetic. Every reference to a variable becomes an access to the environment; operators read the
same in the target, and so they stay.
-/
namespace ShellToDeno.Compile

/-- A name, a number or a special sign after a dollar sign. -/
def parameterLength : Text → Nat
  | [] => 0
  | b :: rest =>
    if Text.isLetter b || b == '_' then 1 + (rest.takeWhile Text.isWordByte).length
    else if Text.isDigit b then 1 + (rest.takeWhile Text.isDigit).length
    else if Text.isOneOf "#?@*!$-" b then 1
    else 0

/-- A reference at the start of a text: its name and its length. -/
def reference? (t : Text) : Option (Text × Nat) :=
  match t with
  | [] => none
  | b :: rest =>
    if b == '$' then
      let inner := match rest with
        | Ascii.openBrace :: after => if parameterLength after > 0 then after else rest
        | _ => rest
      let length := parameterLength inner
      if length == 0 then none else
      let after := inner.drop length
      let closing := if after.head? == some Ascii.closeBrace then 1 else 0
      some (inner.take length, t.length - after.length + closing)
    else if Text.isLetter b || b == '_' then
      let length := parameterLength t
      some (t.take length, length)
    else none

/-- Replaces references; the bytes of the reference just met are skipped. -/
def arithmeticFrom : Nat → Text → Compile Text
  | _, [] => return []
  | skip + 1, _ :: rest => arithmeticFrom skip rest
  | 0, b :: rest => do
    match reference? (b :: rest) with
    | some (name, length) =>
      let access ← env name
      return access ++ (← arithmeticFrom (length - 1) rest)
    | none => return b :: (← arithmeticFrom 0 rest)

def arithmetic (expression : Text) : Compile Text := arithmeticFrom 0 expression

end ShellToDeno.Compile
