import ShellToDeno.Proofs.Values.Characters
import ShellToDeno.Proofs.Quoting.Template

/-!
# String literals read back

`Js.readString?` reads a double-quoted string literal by the rules of strict mode: a line must not
end in it, and an escape that begins with a digit is refused, except for a lone zero. A literal that
was written for a text is read back as the text, repaired where it is not valid
(`Js.readString?_stringLiteral`).
-/
namespace ShellToDeno.Js

/-- Walks the inside of a string literal while `skip` bytes of an escape are still to be passed, and
gives what the inside stands for with the text after the closing quote. The escapes are those of
templates. -/
def stringFrom : Nat → Text → Option (Text × Text)
  | _, [] => none
  | skip + 1, _ :: rest => stringFrom skip rest
  | 0, b :: rest =>
    if b == Ascii.doubleQuote then some ([], rest)
    else if b == Ascii.newline || b == '\r' then none
    else if b == Ascii.backslash then
      match templateEscape? rest with
      | none => none
      | some (value, width) => (stringFrom width rest).map fun read => (value ++ read.1, read.2)
    else (stringFrom 0 rest).map fun read => (b :: read.1, read.2)

def readString? : Text → Option (Text × Text)
  | Ascii.doubleQuote :: rest => stringFrom 0 rest
  | _ => none

example : readString? "\"a\\\"\\u00e9\".length" =
    some (("a\"\xe9" : Text), (".length" : Text)) := by decide

/-- A piece of a string literal that stands for a text whatever follows it. -/
def Spans (piece value : Text) : Prop :=
  ∀ rest, stringFrom 0 (piece ++ rest) = (stringFrom 0 rest).map fun read =>
  (value ++ read.1, read.2)

theorem Spans.nil : Spans [] [] := by
  intro rest
  simp

theorem Spans.append {piece value other s : Text} (first : Spans piece value)
    (second : Spans other s) : Spans (piece ++ other) (value ++ s) := by
  intro rest
  rw [List.append_assoc, first, second, Option.map_map]
  simp [Function.comp_def]

theorem stringFrom_append (passed rest : Text) :
    stringFrom passed.length (passed ++ rest) = stringFrom 0 rest := by
  induction passed with
  | nil => rfl
  | cons b passed ih => exact ih

/-- An escape spans its value if the way it is read does not depend on what follows it. -/
theorem Spans.escape {passed value : Text}
    (escape : ∀ rest, templateEscape? (passed ++ rest) = some (value, passed.length)) :
    Spans (Ascii.backslash :: passed) value := by
  intro rest
  rw [← stringFrom_append passed rest]
  simp +decide [stringFrom, escape]

/-- Bytes that stand for themselves in a string literal. -/
def isStringPlain (b : UInt8) : Bool :=
  b != Ascii.doubleQuote && b != Ascii.newline && b != '\r' && b != Ascii.backslash

theorem Spans.plainText {s : Text} (plain : ∀ b ∈ s, isStringPlain b) : Spans s s := by
  induction s with
  | nil => exact .nil
  | cons b s ih =>
    rw [List.forall_mem_cons] at plain
    have first : Spans [b] [b] := by
      intro rest
      have plain := plain.1
      simp only [isStringPlain, Bool.and_eq_true, bne_iff_ne] at plain
      obtain ⟨⟨⟨quote, newline⟩, carriageReturn⟩, backslash⟩ := plain
      simp [stringFrom, quote, newline, carriageReturn, backslash]
    exact first.append (ih plain.2)

theorem templateEscape?_controlCode (n : Fin 32) (rest : Text) :
    templateEscape? ("u00" ++ hexByte n ++ rest) = some ([UInt8.ofNat n], 5) := by
  have alone : ∀ n : Fin 32, templateEscape? ("u00" ++ hexByte n) = some ([UInt8.ofNat n], 5) := by
    decide +kernel
  exact alone n

theorem Spans.quotedChar (c : Char) : Spans (quotedChar c) (Utf8.encode c) := by
  unfold Js.quotedChar
  split
  iterate 9 exact .escape fun _ => rfl
  next quote backslash newline carriageReturn _ _ _ _ _ =>
  split
  · next control =>
    have code : Utf8.encode c = [UInt8.ofNat c.toNat] := by
      refine (Utf8.encodes_encode c).unique (.one ?_ (by omega))
      rw [UInt8.toNat_ofNat', Nat.mod_eq_of_lt (by omega)]
    rw [code]
    exact .escape (templateEscape?_controlCode ⟨c.toNat, control⟩)
  · apply Spans.plainText
    intro b inside
    have other {d : UInt8} (small : d.toNat < 128) (unlike : c ≠ Char.ofNat d.toNat) : b ≠ d := by
      rintro rfl
      exact unlike (Utf8.eq_of_mem_encode small inside)
    simp only [isStringPlain, Bool.and_eq_true, bne_iff_ne]
    exact ⟨⟨⟨other (by decide) quote, other (by decide) newline⟩, other (by decide) carriageReturn⟩,
      other (by decide) backslash⟩

theorem Spans.quotedPieces (t : Text) :
    Spans ((Utf8.pieces t).flatMap quotedPiece) (Utf8.repair t) := by
  have replaced : Spans Utf8.replacement Utf8.replacement :=
    .plainText (List.all_eq_true.1 (by decide))
  rw [Utf8.repair]
  induction Utf8.pieces t with
  | nil => exact .nil
  | cons piece others ih =>
    rw [List.flatMap_cons, List.flatMap_cons]
    cases piece with
    | char c => exact (Spans.quotedChar c).append ih
    | stray b => exact replaced.append ih

/-- A string literal ends where it was closed, and stands for the text it was written for. -/
theorem readString?_stringLiteral (t rest : Text) :
    readString? (stringLiteral t ++ rest) = some (Utf8.repair t, rest) := by
  rw [stringLiteral, List.append_assoc, List.append_assoc]
  refine (Spans.quotedPieces t (Ascii.doubleQuote :: rest)).trans ?_
  simp [stringFrom]

end ShellToDeno.Js
