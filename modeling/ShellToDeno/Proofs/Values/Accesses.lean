import Mathlib.Data.List.TakeWhile
import ShellToDeno.Js.Property
import ShellToDeno.Proofs.Values.Strings

/-!
# Literals and accesses without loss

A string literal holds no quote that is not escaped and no control character (`Js.Closed`), and it
stands for the text with each byte that belongs to no character replaced (`Utf8.Repairs`). An access
to a property is read back as its key (`Js.readAccess?_propertyAccess`): the dot and the bracket
tell the two notations apart, so different keys have different accesses.
-/
namespace ShellToDeno

namespace Utf8

/-- What a text becomes when each byte that no character starts with is replaced and the characters
are kept. -/
inductive Repairs : Text → Text → Prop where
  | nil : Repairs [] []
  | character {bytes rest repaired : Text} {n : Nat} (encodes : Encodes bytes n)
    (later : Repairs rest repaired) : Repairs (bytes ++ rest) (bytes ++ repaired)
  | stray {b : UInt8} {rest repaired : Text}
    (alone : ∀ bytes n, Encodes bytes n → ¬bytes <+: b :: rest)
    (later : Repairs rest repaired) : Repairs (b :: rest) (replacement ++ repaired)

theorem Encodes.eq_encode {bytes : Text} {n : Nat} (encodes : Encodes bytes n) :
    bytes = encode (Char.ofNat n) := by
  have bytes := append_of_next? (encodes.next? [])
  rwa [List.append_nil, List.append_nil] at bytes

theorem repair_encode_append (c : Char) (rest : Text) :
    repair (encode c ++ rest) = encode c ++ repair rest := by
  rw [repair, pieces_encode_append]
  rfl

theorem repair_stray {b : UInt8} {rest : Text} (none : next? (b :: rest) = none) :
    repair (b :: rest) = replacement ++ repair rest := by
  rw [repair, pieces, piecesFrom, none]
  rfl

theorem next?_eq_none_iff {b : UInt8} {rest : Text} :
    next? (b :: rest) = none ↔ ∀ bytes n, Encodes bytes n → ¬bytes <+: b :: rest := by
  constructor
  · rintro none bytes n encodes ⟨after, same⟩
    rw [← same, encodes.next?] at none
    cases none
  · intro alone
    cases found : next? (b :: rest) with
    | none => rfl
    | some read =>
      obtain ⟨bytes, same, encodes⟩ := encodes_of_next? found
      exact absurd ⟨_, same.symm⟩ (alone bytes _ encodes)

theorem repairs_repair (t : Text) : Repairs t (repair t) := by
  induction length : t.length using Nat.strongRecOn generalizing t with
  | ind size ih =>
  cases t with
  | nil => exact .nil
  | cons b rest =>
    cases found : next? (b :: rest) with
    | none =>
      rw [repair_stray found]
      exact .stray (next?_eq_none_iff.1 found) (ih _ (by simp [← length]) rest rfl)
    | some read =>
      obtain ⟨c, after⟩ := read
      have bytes := append_of_next? found
      have positive := List.length_pos_iff.2 (encode_ne_nil c)
      rw [bytes, List.length_append] at length
      rw [bytes, repair_encode_append]
      exact .character (encodes_encode c) (ih _ (by omega) after rfl)

theorem repairs_iff {t repaired : Text} : Repairs t repaired ↔ repaired = repair t := by
  constructor
  · intro repairs
    induction repairs with
    | nil => rfl
    | character encodes _ ih => rw [encodes.eq_encode, repair_encode_append, ih]
    | stray alone _ ih => rw [repair_stray (next?_eq_none_iff.2 alone), ih]
  · rintro rfl
    exact repairs_repair t

end Utf8

namespace Js

/-- Whether there is a quote that is not escaped; a backslash escapes the byte after it. -/
def hasOpenQuote : Text → Bool
  | [] => false
  | Ascii.backslash :: _ :: rest => hasOpenQuote rest
  | b :: rest => b == Ascii.doubleQuote || hasOpenQuote rest

/-- A piece of a literal in which all quotes are escaped, whatever follows, and without control
characters. -/
structure Closed (piece : Text) : Prop where
  quotes : ∀ rest, hasOpenQuote (piece ++ rest) = hasOpenQuote rest
  controls : ∀ b ∈ piece, 0x20 ≤ b

theorem Closed.nil : Closed [] := ⟨fun _ => rfl, List.forall_mem_nil _⟩

theorem Closed.append {piece other : Text} (first : Closed piece) (second : Closed other) :
    Closed (piece ++ other) where
  quotes rest := by rw [List.append_assoc, first.quotes, second.quotes]
  controls := List.forall_mem_append.2 ⟨first.controls, second.controls⟩

/-- Bytes of a literal that neither end it nor start an escape. -/
def isLiteralPlain (b : UInt8) : Bool :=
  b != Ascii.doubleQuote && b != Ascii.backslash && 0x20 ≤ b

theorem Closed.plainText {s : Text} (plain : ∀ b ∈ s, isLiteralPlain b) : Closed s := by
  induction s with
  | nil => exact .nil
  | cons b s ih =>
    rw [List.forall_mem_cons] at plain
    have first : Closed [b] := by
      have plain := plain.1
      simp only [isLiteralPlain, Bool.and_eq_true, bne_iff_ne, decide_eq_true_eq] at plain
      obtain ⟨⟨quote, backslash⟩, control⟩ := plain
      refine ⟨fun rest => ?_, by simpa using control⟩
      rw [List.singleton_append, hasOpenQuote.eq_3 _ _ fun _ _ same => absurd same backslash]
      simp [quote]
    exact first.append (ih plain.2)

theorem Closed.escape {b : UInt8} {others : Text} (control : 0x20 ≤ b)
    (plain : ∀ c ∈ others, isLiteralPlain c) : Closed (Ascii.backslash :: b :: others) where
  quotes := (Closed.plainText plain).quotes
  controls := List.forall_mem_cons.2
    ⟨by decide, List.forall_mem_cons.2 ⟨control, (Closed.plainText plain).controls⟩⟩

theorem Closed.quotedChar (c : Char) : Closed (quotedChar c) := by
  unfold Js.quotedChar
  split
  iterate 9 exact .escape (by decide) (List.all_eq_true.1 (by decide))
  next quote backslash _ _ _ _ _ _ _ =>
  split
  · next control =>
    have digits : ∀ n : Fin 32, ("00" ++ hexByte n).all isLiteralPlain := by decide +kernel
    exact .escape (by decide) (List.all_eq_true.1 (digits ⟨c.toNat, control⟩))
  · next printed =>
    apply Closed.plainText
    intro b inside
    have other {d : UInt8} (small : d.toNat < 128) (unlike : c ≠ Char.ofNat d.toNat) : b ≠ d := by
      rintro rfl
      exact unlike (Utf8.eq_of_mem_encode small inside)
    have least : 0x20 ≤ b.toNat := by
      rcases Utf8.mem_encode inside with same | high <;> omega
    simp only [isLiteralPlain, Bool.and_eq_true, bne_iff_ne, decide_eq_true_eq,
      UInt8.le_iff_toNat_le]
    exact ⟨⟨other (by decide) quote, other (by decide) backslash⟩, least⟩

theorem Closed.quotedPieces (t : Text) : Closed ((Utf8.pieces t).flatMap quotedPiece) := by
  have replaced : Closed Utf8.replacement := .plainText (List.all_eq_true.1 (by decide))
  induction Utf8.pieces t with
  | nil => exact .nil
  | cons piece others ih =>
    rw [List.flatMap_cons]
    cases piece with
    | char c => exact (Closed.quotedChar c).append ih
    | stray b => exact replaced.append ih

/-! Accesses -/

/-- Reads an access to a property: a dot and the longest name after it, or a string literal between
brackets. -/
def readAccess? : Text → Option (Text × Text)
  | [] => none
  | b :: rest =>
    if b == Ascii.dot then
      if isIdentifier (rest.takeWhile isIdentifierByte) then
        some (rest.takeWhile isIdentifierByte, rest.dropWhile isIdentifierByte)
      else none
    else if b == '[' then
      (readString? rest).bind fun read =>
        if read.2.head? == some (']' : Char).toUInt8 then some (read.1, read.2.tail) else none
    else none

theorem all_isIdentifierByte {key : Text} (identifier : isIdentifier key) :
    ∀ b ∈ key, isIdentifierByte b := by
  cases key with
  | nil => cases identifier
  | cons b rest =>
    rw [isIdentifier, Bool.and_eq_true, List.all_eq_true] at identifier
    refine List.forall_mem_cons.2 ⟨?_, identifier.2⟩
    have first := identifier.1
    simp only [Bool.or_eq_true] at first
    simp only [isIdentifierByte, Text.isWordByte, Bool.or_eq_true]
    tauto

theorem readAccess?_dot {key : Text} (identifier : isIdentifier key) :
    readAccess? ("." ++ key) = some (key, []) := by
  have bytes := all_isIdentifierByte identifier
  change (if isIdentifier (key.takeWhile isIdentifierByte) then
    some (key.takeWhile isIdentifierByte, key.dropWhile isIdentifierByte) else none) = _
  rw [List.takeWhile_eq_self_iff.2 bytes, if_pos identifier, List.dropWhile_eq_nil_iff.2 bytes]

theorem readAccess?_bracket {literal key : Text}
    (read : ∀ rest, readString? (literal ++ rest) = some (key, rest)) :
    readAccess? ("[" ++ literal ++ "]") = some (key, []) := by
  change ((readString? (literal ++ "]")).bind fun read => _) = _
  rw [read]
  rfl

theorem readString?_of_isValid {key : Text} (valid : Utf8.isValid key) (rest : Text) :
    readString? (stringLiteral key ++ rest) = some (key, rest) := by
  rw [readString?_stringLiteral, Utf8.repair_of_isValid valid]

theorem readAccess?_propertyAccess {key : Text} (valid : Utf8.isValid key) :
    readAccess? (propertyAccess key) = some (key, []) := by
  rw [propertyAccess]
  split
  · next plain => exact readAccess?_dot (Bool.and_eq_true_iff.1 plain).1
  · exact readAccess?_bracket (readString?_of_isValid valid)

/-- A string literal is closed and stands for the text with each stray byte replaced, wherever it
stands. An access is a dot and the key or a literal of the key in brackets, and tells which key it
is for. -/
theorem literals_and_accesses_lossless :
    (∀ s, ∃ inside repaired, stringLiteral s = "\"" ++ inside ++ "\"" ∧
      hasOpenQuote inside = false ∧ (∀ b ∈ inside, 0x20 ≤ b) ∧
      (∀ t, Utf8.Repairs s t ↔ t = repaired) ∧
      ∀ rest, readString? (stringLiteral s ++ rest) = some (repaired, rest)) ∧
    (∀ key, Utf8.isValid key →
      (isIdentifier key ∧ key ∉ reservedWords ∧ propertyAccess key = "." ++ key) ∨
      ∃ literal, readString? literal = some (key, []) ∧
        propertyAccess key = "[" ++ literal ++ "]") ∧
    (∀ key other, Utf8.isValid key → Utf8.isValid other →
      propertyAccess key = propertyAccess other → key = other) := by
  refine ⟨fun s => ?_, fun key valid => ?_, fun key other valid otherValid same => ?_⟩
  · have closed := Closed.quotedPieces s
    refine ⟨_, _, rfl, ?_, closed.controls, fun _ => Utf8.repairs_iff, readString?_stringLiteral s⟩
    simpa [hasOpenQuote] using closed.quotes []
  · rw [propertyAccess]
    split
    · next plain =>
      rw [isPlainKey, Bool.and_eq_true] at plain
      exact .inl ⟨plain.1, by simpa using plain.2, rfl⟩
    · have read := readString?_of_isValid valid []
      rw [List.append_nil] at read
      exact .inr ⟨_, read, rfl⟩
  · have read := readAccess?_propertyAccess valid
    rw [same, readAccess?_propertyAccess otherValid] at read
    exact (Prod.mk.inj (Option.some.inj read)).1.symm

/-- A key with a quote and a line separator, and one that looks like its literal. -/
theorem literals_and_accesses_lossless_separator :
    Utf8.isValid "\"\u2028" ∧ Utf8.isValid "\\\"\\u2028" ∧
    (∃ literal, readString? literal = some (("\"\u2028" : Text), []) ∧
      propertyAccess "\"\u2028" = "[" ++ literal ++ "]") ∧
    propertyAccess "\"\u2028" ≠ propertyAccess "\\\"\\u2028" := by
  have valid : Utf8.isValid "\"\u2028" := by decide
  have otherValid : Utf8.isValid "\\\"\\u2028" := by decide
  refine ⟨valid, otherValid, ?_, fun same => ?_⟩
  · exact (literals_and_accesses_lossless.2.1 _ valid).resolve_left fun plain =>
      absurd plain.1 (by decide)
  · exact absurd (literals_and_accesses_lossless.2.2 _ _ valid otherValid same) (by decide)

end Js

end ShellToDeno
