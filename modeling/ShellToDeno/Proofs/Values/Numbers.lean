import ShellToDeno.Proofs.Integers
import ShellToDeno.Proofs.Tests.Exact
import ShellToDeno.Js.Property

/-!
# Numbers in a program and as texts

`Js.readNumber?` reads a decimal number literal by the rules of strict mode: a zero must not stand
before another digit, and no word may follow at once. `Double.text?` is the text that a number is
converted to: the fewest digits that read as the number, laid out with a point or an exponent. The
way there and back changes a text that has superfluous zeros or more digits than a double holds. A
whole number below 2 ^ 53 comes back as it was (`Js.numeralText?_whole`).
-/
namespace ShellToDeno

namespace Double

/-- The number one in steps. -/
@[irreducible] def one : Nat := Nat.pow 2 1074

/-- The multiple of a power of ten next to a number of steps that reads as this number, the nearer
one if both do. -/
def decimalAt? (steps : Nat) (exponent : Int) : Option Nat :=
  let n := steps * 10 ^ (-exponent).toNat
  let d := one * 10 ^ exponent.toNat
  [roundDiv n d, n / d, n / d + 1].find? fun m => scaled? m 10 exponent == some steps

/-- The decimal with the fewest digits that reads as a number of steps, and its power of ten. Powers
are tried from the largest that may be one; with the smallest a decimal is exact. -/
def shortest? (steps : Nat) : Option (Nat × Int) :=
  let largest := (Text.ofNat (steps / one)).length
  (List.range (largest + 1075)).findSome? fun (i : Nat) =>
    (decimalAt? steps (largest - i)).map fun digits => (digits, (largest - i : Int))

/-- Digits with a power of ten as a number is written. -/
def layOut (digits : Text) (exponent : Int) : Text :=
  let point := digits.length + exponent
  if 0 ≤ exponent ∧ point ≤ 21 then digits ++ List.replicate exponent.toNat ('0' : Char).toUInt8
  else if 0 < point ∧ point ≤ 21 then
    digits.take point.toNat ++ "." ++ digits.drop point.toNat
  else if -6 < point ∧ point ≤ 0 then
    "0." ++ List.replicate (-point).toNat ('0' : Char).toUInt8 ++ digits
  else
    let fraction : Text := if digits.length ≤ 1 then [] else "." ++ digits.drop 1
    let sign : Text := if point < 1 then "-" else "+"
    digits.take 1 ++ fraction ++ "e" ++ sign ++ Text.ofNat (point - 1).natAbs

/-- The text that a number is converted to, none if no decimal reads as it. -/
def text? : Double → Option Text
  | .notANumber => some "NaN"
  | .infinite negative => some (if negative then "-Infinity" else "Infinity")
  | .finite steps =>
    if steps = 0 then some "0"
    else (shortest? steps.natAbs).map fun (digits, exponent) =>
      let unsigned := layOut (Text.ofNat digits) exponent
      if steps < 0 then "-" ++ unsigned else unsigned

theorem one_eq : one = 2 ^ 1074 := by
  unfold one
  generalize 1074 = e
  exact Nat.pow_eq

theorem exists_one_eq_pow : ∃ e, one = 2 ^ e := Exists.intro 1074 one_eq

theorem one_pos : 0 < one := by
  obtain ⟨e, power⟩ := exists_one_eq_pow
  rw [power]
  exact Nat.two_pow_pos e

theorem nearest?_whole {n : Nat} (small : n < 2 ^ 53) : nearest? n 1 = some (n * one) := by
  have exact := nearest?_exact small
  rwa [← one_eq] at exact

theorem scaled?_whole {n : Nat} (small : n < 2 ^ 53) : scaled? n 10 0 = some (n * one) := by
  have exact := scaled?_exact small
  rwa [← one_eq] at exact

theorem div_le_roundDiv (n d : Nat) : n / d ≤ roundDiv n d := by
  unfold roundDiv
  dsimp only
  split
  · exact Nat.le_refl _
  · split
    · exact Nat.le_succ _
    · split
      · exact Nat.le_refl _
      · exact Nat.le_succ _

/-- Rounding to 53 bits does not go below a power of two. -/
theorem pow_log2_le_rounded {n : Nat} (bits : 53 ≤ n.log2 + 1) (nonzero : n ≠ 0) :
    2 ^ n.log2 ≤ 2 ^ (n.log2 + 1 - 53) * roundDiv n (2 ^ (n.log2 + 1 - 53)) := by
  have power : 2 ^ (n.log2 + 1 - 53) * 2 ^ 52 = 2 ^ n.log2 := by
    rw [← Nat.pow_add]
    congr 1
    omega
  have quotient : 2 ^ 52 ≤ n / 2 ^ (n.log2 + 1 - 53) := by
    rw [Nat.le_div_iff_mul_le (Nat.two_pow_pos _), Nat.mul_comm, power]
    exact Nat.log2_self_le nonzero
  rw [← power]
  exact Nat.mul_le_mul_left _ (Nat.le_trans quotient (div_le_roundDiv _ _))

/-- What is not below 2 ^ 53 does not come below it by rounding. -/
theorem le_of_nearest? {m steps : Nat} (large : 2 ^ 53 ≤ m) (found : nearest? m 1 = some steps) :
    2 ^ 53 * one ≤ steps := by
  have rounded : 2 ^ (Nat.log2 (m * one) + 1 - 53) *
      roundDiv (m * one) (2 ^ (Nat.log2 (m * one) + 1 - 53)) = steps := by
    unfold nearest? at found
    generalize Nat.pow 2 (1024 + 1074) = bound at found
    simp only [Nat.pow_eq, ← one_eq, Nat.div_one, Nat.one_mul, -Nat.reducePow,
      Option.ite_none_right_eq_some, Option.some.injEq] at found
    exact found.2
  have nonzero : m * one ≠ 0 := by
    have positive := Nat.mul_pos (Nat.lt_of_lt_of_le (Nat.two_pow_pos 53) large) one_pos
    omega
  obtain ⟨e, power⟩ := exists_one_eq_pow
  have scaled : 2 ^ (53 + e) ≤ m * one := by
    rw [Nat.pow_add, ← power]
    exact Nat.mul_le_mul_right one large
  have bits : 53 + e ≤ Nat.log2 (m * one) := (Nat.le_log2 nonzero).2 scaled
  calc 2 ^ 53 * one = 2 ^ (53 + e) := by rw [Nat.pow_add, power]
    _ ≤ 2 ^ Nat.log2 (m * one) := Nat.pow_le_pow_right (by decide) bits
    _ ≤ steps := by
      rw [← rounded]
      exact pow_log2_le_rounded (by omega) nonzero

theorem eq_of_nearest? {m n : Nat} (small : n < 2 ^ 53) (found : nearest? m 1 = some (n * one)) :
    m = n := by
  by_cases large : 2 ^ 53 ≤ m
  · have above := Nat.le_of_mul_le_mul_right (le_of_nearest? large found) one_pos
    omega
  · rw [nearest?_whole (Nat.lt_of_not_le large)] at found
    exact Nat.eq_of_mul_eq_mul_right one_pos (Option.some.inj found)

/-- A decimal without a fraction that reads as a small whole number is this number. -/
theorem eq_of_scaled? {m n : Nat} {exponent : Int} (positive : 0 < n) (small : n < 2 ^ 53)
    (whole : 0 ≤ exponent) (found : scaled? m 10 exponent = some (n * one)) :
    m * 10 ^ exponent.toNat = n := by
  have nonzero := Nat.mul_pos positive one_pos
  rw [scaled?] at found
  simp only [ge_iff_le, whole, if_true] at found
  split at found
  · have zero := Option.some.inj found
    omega
  · split at found
    · cases found
    · exact eq_of_nearest? small found

theorem scaled?_of_decimalAt? {steps digits : Nat} {exponent : Int}
    (found : decimalAt? steps exponent = some digits) :
    scaled? digits 10 exponent = some steps := by
  have fits := List.find?_some found
  rwa [beq_iff_eq] at fits

theorem decimalAt?_whole {n : Nat} (small : n < 2 ^ 53) : (decimalAt? (n * one) 0).isSome := by
  have quotient : n * one * 10 ^ (-(0 : Int)).toNat / (one * 10 ^ (0 : Int).toNat) = n := by
    simp [one_pos]
  rw [decimalAt?, List.find?_isSome]
  refine ⟨n, ?_, ?_⟩
  · rw [quotient]
    simp
  · rw [scaled?_whole small]
    exact beq_self_eq_true _

/-- The shortest decimal of a small whole number has no fraction. -/
theorem shortest?_whole {n : Nat} (positive : 0 < n) (small : n < 2 ^ 53) :
    ∃ digits exponent : Nat, shortest? (n * one) = some (digits, (exponent : Int)) ∧
      digits * 10 ^ exponent = n := by
  unfold shortest?
  extract_lets largest
  obtain ⟨whole, found⟩ := Option.isSome_iff_exists.1 (decimalAt?_whole small)
  have reached : ((List.range (largest + 1075)).findSome? fun (i : Nat) =>
      (decimalAt? (n * one) (largest - i)).map fun digits =>
        (digits, (largest - i : Int))).isSome := by
    rw [List.findSome?_isSome_iff]
    refine ⟨largest, by simp, ?_⟩
    simp [found]
  obtain ⟨⟨digits, exponent⟩, first⟩ := Option.isSome_iff_exists.1 reached
  obtain ⟨before, i, after, split, here, earlier⟩ := List.findSome?_eq_some_iff.1 first
  obtain ⟨digits, decimal, same⟩ := Option.map_eq_some_iff.1 here
  obtain ⟨rfl, rfl⟩ := Prod.mk.inj same
  have inside : i ≤ largest := by
    have tried : largest ∈ before ++ i :: after := split ▸ List.mem_range.2 (by omega)
    have sorted : (before ++ i :: after).Pairwise (· < ·) := split ▸ List.pairwise_lt_range
    rcases List.mem_append.1 tried with passed | reached
    · have missed := earlier largest passed
      simp [found] at missed
    · rcases List.mem_cons.1 reached with same | later
      · exact Nat.le_of_eq same.symm
      · exact Nat.le_of_lt ((List.pairwise_cons.1 (List.pairwise_append.1 sorted).2.1).1
          largest later)
  refine ⟨digits, largest - i, ?_, ?_⟩
  · rw [first, Int.natCast_sub inside]
  · have value := eq_of_scaled? positive small (Int.sub_nonneg_of_le (Int.ofNat_le.2 inside))
      (scaled?_of_decimalAt? decimal)
    rwa [← Int.natCast_sub inside, Int.toNat_natCast] at value

end Double

namespace Text

/-- The byte of a decimal digit. -/
def digitByte (d : Nat) : UInt8 := UInt8.ofNat (48 + d)

theorem ofNat_digit {d : Nat} (small : d < 10) : ofNat d = [digitByte d] := by
  rw [ofNat_eq, Nat.toDigits_of_lt_base small]
  have all : ∀ d < 10, [d.digitChar].flatMap Utf8.encode = [digitByte d] := by decide
  exact all d small

theorem ofNat_append_digit {n d : Nat} (positive : 0 < n) (small : d < 10) :
    ofNat n ++ [digitByte d] = ofNat (10 * n + d) := by
  rw [← ofNat_digit small, ofNat_eq, ofNat_eq, ofNat_eq,
    ← Nat.toDigits_append_toDigits (by decide) positive small, List.flatMap_append]

theorem ofNat_append_zeros {n : Nat} (positive : 0 < n) (count : Nat) :
    ofNat n ++ List.replicate count (digitByte 0) = ofNat (n * 10 ^ count) := by
  induction count with
  | zero => simp
  | succ count ih =>
    have more : 0 < n * 10 ^ count := Nat.mul_pos positive (Nat.pow_pos (by decide))
    rw [List.replicate_succ', ← List.append_assoc, ih, ofNat_append_digit more (by decide)]
    rw [Nat.pow_succ, Nat.add_zero, Nat.mul_left_comm, Nat.mul_comm 10]

/-- Whether a zero stands before another digit. -/
def isPadded : Text → Bool
  | first :: second :: _ => first == '0' && isDigit second
  | _ => false

theorem digitValue_digit : ∀ b : UInt8, isDigit b →
    (Shell.digitValue? 10 b).getD 0 < 10 ∧ digitByte ((Shell.digitValue? 10 b).getD 0) = b ∧
      ((Shell.digitValue? 10 b).getD 0 = 0 ↔ b = '0') := by
  decide +kernel

/-- Digits that are read after a number that is not zero are written after it. -/
theorem ofNat_foldl_digits {t : Text} (digits : ∀ b ∈ t, isDigit b) {n : Nat} (positive : 0 < n) :
    ofNat (t.foldl (fun n b => n * 10 + (Shell.digitValue? 10 b).getD 0) n) = ofNat n ++ t := by
  induction t generalizing n with
  | nil => simp
  | cons b t ih =>
    rw [List.forall_mem_cons] at digits
    obtain ⟨small, byte, _⟩ := digitValue_digit b digits.1
    have written := ofNat_append_digit positive small
    rw [byte, Nat.mul_comm] at written
    rw [List.foldl_cons, ih digits.2 (by omega), ← written, List.append_assoc]
    rfl

/-- Digits that are not padded are those that their value is written with. -/
theorem ofNat_digitsValue {t : Text} (isDigits : t.isDigits) (plain : t.isPadded = false) :
    ofNat (Shell.digitsValue 10 t) = t := by
  simp only [Text.isDigits, Bool.and_eq_true, Bool.not_eq_true', List.isEmpty_eq_false_iff,
    List.all_eq_true] at isDigits
  obtain ⟨nonempty, digits⟩ := isDigits
  obtain ⟨b, t, rfl⟩ := List.exists_cons_of_ne_nil nonempty
  rw [List.forall_mem_cons] at digits
  obtain ⟨small, byte, zero⟩ := digitValue_digit b digits.1
  have first : ofNat ((Shell.digitValue? 10 b).getD 0) = [b] := by rw [ofNat_digit small, byte]
  rw [Shell.digitsValue, List.foldl_cons, Nat.zero_mul, Nat.zero_add]
  cases t with
  | nil => exact first
  | cons c t =>
    have nonzero : b ≠ '0' := by
      intro same
      simp [isPadded, same, digits.2 c] at plain
    rw [ofNat_foldl_digits digits.2 (Nat.pos_of_ne_zero fun none => nonzero (zero.1 none)), first]
    rfl

end Text

/-- A small whole number is converted to its digits. -/
theorem Double.text?_whole {n : Nat} (small : n < 2 ^ 53) :
    (finite (n * one : Nat)).text? = some (Text.ofNat n) := by
  by_cases zero : n = 0
  · rw [zero, Nat.zero_mul]
    decide
  have positive : 0 < n := Nat.pos_of_ne_zero zero
  obtain ⟨digits, exponent, shortest, value⟩ := shortest?_whole positive small
  have some : 0 < digits := by
    apply Nat.pos_of_ne_zero
    rintro rfl
    omega
  have written := Text.ofNat_append_zeros some exponent
  rw [value] at written
  have length : (Text.ofNat digits).length + exponent ≤ 16 := by
    have fits := Text.length_ofNat_le (by decide : 0 < 16) (Nat.lt_trans small (by decide))
    rw [← written] at fits
    simpa using fits
  have laid : layOut (Text.ofNat digits) exponent = Text.ofNat n := by
    rw [layOut, if_pos ⟨by omega, by omega⟩, Int.toNat_natCast]
    exact written
  have steps : ((n * one : Nat) : Int) ≠ 0 := by
    have nonzero := Nat.mul_pos positive one_pos
    omega
  have unsigned : ¬((n * one : Nat) : Int) < 0 := Int.not_lt.2 (Int.natCast_nonneg _)
  rw [text?, if_neg steps, Int.natAbs_natCast, shortest, Option.map_some]
  simp only [laid, if_neg unsigned]

namespace Js

/-- Whether a word goes on where a text begins. Bytes beyond ASCII are taken for letters. -/
def startsWord : Text → Bool
  | [] => false
  | b :: _ => isIdentifierByte b || b == Ascii.backslash || 0x80 ≤ b

/-- The digits after a point, if there is one, and what follows them. -/
def fraction : Text → Text × Text
  | Ascii.dot :: rest => (rest.takeWhile Text.isDigit, rest.dropWhile Text.isDigit)
  | rest => ([], rest)

/-- The number with given digits before and after the point. -/
def numberOf (whole places : Text) : Double :=
  match Double.scaled? (Shell.digitsValue 10 (whole ++ places)) 10 (-places.length) with
  | some steps => .finite steps
  | none => .infinite false

/-- Reads a decimal number without an exponent at the start of a text. -/
def readNumber? (t : Text) : Option (Double × Text) :=
  let whole := t.takeWhile Text.isDigit
  let (places, rest) := fraction (t.dropWhile Text.isDigit)
  if whole.isEmpty || t.isPadded || startsWord rest then none else
    some (numberOf whole places, rest)

/-- The text that a number literal is converted to. -/
def numeralText? (t : Text) : Option Text :=
  match readNumber? t with
  | some (value, []) => value.text?
  | _ => none

example : numeralText? "12345678901234567890" = some ("12345678901234567000" : Text) := by
  decide +kernel

example : numeralText? "1.50" = some ("1.5" : Text) := by decide +kernel

theorem readNumber?_padded {t : Text} (padded : t.isPadded) : readNumber? t = none := by
  simp [readNumber?, padded]

theorem numeralText?_padded {t : Text} (padded : t.isPadded) : numeralText? t = none := by
  rw [numeralText?, readNumber?_padded padded]

/-- How digits are read: no further digit may follow them. -/
theorem readNumber?_append {t rest : Text} (isDigits : t.isDigits)
    (ends : ∀ b after, rest = b :: after → Text.isDigit b = false) :
    readNumber? (t ++ rest) =
      if t.isPadded || startsWord (fraction rest).2 then none
      else some (numberOf t (fraction rest).1, (fraction rest).2) := by
  obtain ⟨nonempty, digits⟩ : t ≠ [] ∧ ∀ b ∈ t, Text.isDigit b := by
    simpa [Text.isDigits] using isDigits
  have none : rest.takeWhile Text.isDigit = [] ∧ rest.dropWhile Text.isDigit = rest := by
    cases rest with
    | nil => exact ⟨rfl, rfl⟩
    | cons b after => simp [ends b after rfl]
  have padded : (t ++ rest).isPadded = t.isPadded := by
    cases t with
    | nil => exact absurd rfl nonempty
    | cons b t =>
      cases t with
      | cons c t => rfl
      | nil =>
        cases rest with
        | nil => rfl
        | cons c after => simp [Text.isPadded, ends c after rfl]
  simp [readNumber?, List.takeWhile_append_of_pos digits, List.dropWhile_append_of_pos digits, none,
    nonempty, padded]

/-- A whole number below 2 ^ 53 that is not padded is converted to what it was read from. -/
theorem numeralText?_whole {t : Text} (isDigits : t.isDigits) (plain : t.isPadded = false)
    (small : Shell.digitsValue 10 t < 2 ^ 53) : numeralText? t = some t := by
  have number : numberOf t [] = .finite (Shell.digitsValue 10 t * Double.one : Nat) := by
    have read := Double.scaled?_whole small
    simp only [numberOf, List.append_nil, List.length_nil, Int.natCast_zero, Int.neg_zero, read]
  have read : readNumber? t = some (numberOf t [], []) := by
    simpa [plain, fraction, startsWord] using @readNumber?_append t [] isDigits (by simp)
  simp only [numeralText?, read, number, Double.text?_whole small,
    Text.ofNat_digitsValue isDigits plain]

end Js

end ShellToDeno
