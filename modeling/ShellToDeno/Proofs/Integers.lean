import Mathlib.Algebra.Group.Int.Defs
import Mathlib.Algebra.Group.Nat.Defs
import Mathlib.Data.List.Basic
import ShellToDeno.Text.Integer
import ShellToDeno.Text.Utf8

/-!
# Written integers

An integer is written so that it can be read again, and one that fits in 64 bits stays as it is when
it is wrapped around.
-/
namespace ShellToDeno

namespace Text

theorem ofNat_eq (n : Nat) : ofNat n = (Nat.toDigits 10 n).flatMap Utf8.encode := by
  change ((Nat.toDigits 10 n).flatMap Utf8.encode).toByteArray.data.toList = _
  rw [List.data_toByteArray]

theorem encode_digit {c : Char} (digit : c.isDigit = true) :
    ∃ b : UInt8, Utf8.encode c = [b] ∧ b.toNat = c.toNat ∧ isDigit b = true := by
  simp only [Char.isDigit, Bool.and_eq_true, decide_eq_true_eq, UInt32.le_iff_toNat_le] at digit
  have low : 48 ≤ c.toNat := digit.1
  have high : c.toNat ≤ 57 := digit.2
  refine ⟨UInt8.ofNat c.toNat, ?_, ?_, ?_⟩
  · have code : c.val.toNat = c.toNat := rfl
    rw [Utf8.encode, String.utf8EncodeChar, code, if_pos (by omega)]
  · rw [UInt8.toNat_ofNat', Nat.mod_eq_of_lt (by omega)]
  · have all : ∀ n ≤ 57, 48 ≤ n → isDigit (UInt8.ofNat n) = true := by decide
    exact all c.toNat high low

/-- The decimal digits of a number. -/
theorem exists_digits (n : Nat) : ofNat n ≠ [] ∧ (∀ b ∈ ofNat n, isDigit b = true) ∧
    Integer.naturalValue (ofNat n) = n := by
  have each : ∀ c ∈ Nat.toDigits 10 n, c.isDigit = true := fun c member =>
    Nat.isDigit_of_mem_toDigits (by omega) (by omega) member
  have value (chars : List Char) (digits : ∀ c ∈ chars, c.isDigit = true) (start : Nat) :
      (chars.flatMap Utf8.encode).foldl (fun n b => n * 10 + (b.toNat - 48)) start =
        Nat.ofDigitChars 10 chars start := by
    induction chars generalizing start with
    | nil => rfl
    | cons c chars ih =>
      obtain ⟨b, bytes, code, -⟩ := encode_digit (digits c (by simp))
      rw [List.flatMap_cons, bytes, List.singleton_append, List.foldl_cons,
        ih fun c member => digits c (by simp [member]), code, Nat.ofDigitChars_cons, Nat.mul_comm]
      rfl
  rw [ofNat_eq]
  refine ⟨?_, ?_, ?_⟩
  · obtain ⟨c, chars, split⟩ := List.exists_cons_of_ne_nil (Nat.toDigits_ne_nil (b := 10) (n := n))
    obtain ⟨b, bytes, -⟩ := encode_digit (each c (by simp [split]))
    rw [split, List.flatMap_cons, bytes]
    exact List.cons_ne_nil _ _
  · intro b member
    obtain ⟨c, listed, inside⟩ := List.mem_flatMap.1 member
    obtain ⟨byte, bytes, -, digit⟩ := encode_digit (each c listed)
    rw [bytes, List.mem_singleton] at inside
    exact inside ▸ digit
  · rw [Integer.naturalValue, value _ each, Nat.ofDigitChars_ten_toDigits]

theorem length_ofNat_le {n k : Nat} (positive : 0 < k) (small : n < 10 ^ k) :
    (ofNat n).length ≤ k := by
  have bytes : ∀ chars : List Char, (∀ c ∈ chars, c.isDigit = true) →
      (chars.flatMap Utf8.encode).length = chars.length := by
    intro chars digits
    induction chars with
    | nil => rfl
    | cons c chars ih =>
      rw [List.forall_mem_cons] at digits
      obtain ⟨b, same, _⟩ := encode_digit digits.1
      simp [List.flatMap_cons, same, ih digits.2]
  rw [ofNat_eq, bytes _ fun c inside => Nat.isDigit_of_mem_toDigits (by decide) (by decide) inside]
  exact (Nat.length_toDigits_le_iff (by decide) positive).2 small

end Text

namespace Integer

theorem value_of_isDigit {digits : Text} (each : ∀ b ∈ digits, Text.isDigit b = true) :
    value digits = naturalValue digits := by
  cases digits with
  | nil => rfl
  | cons b rest =>
    have digit := each b (by simp)
    unfold value
    split
    · next same =>
      cases same
      cases digit
    · rfl

/-- A written integer has the value it was written for. -/
theorem value_ofInt (i : Int) : value (Text.ofInt i) = i := by
  cases i with
  | ofNat n =>
    obtain ⟨-, digits, same⟩ := Text.exists_digits n
    rw [Text.ofInt, value_of_isDigit digits, same]
    rfl
  | negSucc n =>
    obtain ⟨-, -, same⟩ := Text.exists_digits (n + 1)
    change -(naturalValue (Text.ofNat (n + 1)) : Int) = _
    rw [same]
    rfl

/-- Zeros in front do not count. -/
theorem naturalValue_zeros (count : Nat) (digits : Text) :
    naturalValue (List.replicate count ('0' : UInt8) ++ digits) = naturalValue digits := by
  induction count with
  | zero => rfl
  | succ count ih => exact ih

theorem naturalValue_lt {digits : Text} (each : ∀ b ∈ digits, Text.isDigit b = true) :
    naturalValue digits < 10 ^ digits.length := by
  have value {b : UInt8} (digit : Text.isDigit b = true) : b.toNat - 48 < 10 := by
    have high : b.toNat ≤ 57 := of_decide_eq_true (Bool.and_eq_true_iff.1 digit).2
    omega
  have grows (start bound : Nat) (small : start < bound) :
      digits.foldl (fun n b => n * 10 + (b.toNat - 48)) start < bound * 10 ^ digits.length := by
    induction digits generalizing start bound with
    | nil => simpa using small
    | cons b digits ih =>
      have digit := value (each b (by simp))
      have more := ih (fun c member => each c (by simp [member])) (start * 10 + (b.toNat - 48))
        (bound * 10) (by omega)
      rw [List.foldl_cons, List.length_cons, Nat.pow_succ]
      rwa [Nat.mul_assoc, Nat.mul_comm 10] at more
  simpa [naturalValue] using grows 0 1 (by decide)

theorem wrap_eq {n : Int} (low : -2 ^ 63 ≤ n) (high : n < 2 ^ 63) : wrap n = n :=
  Int.bmod_eq_of_le (by simpa [count] using low) (by simpa [count] using high)

/-- What is too large comes round from the other end. -/
theorem wrap_above {n : Int} (low : 2 ^ 63 ≤ n) (high : n < 2 ^ 64) : wrap n = n - 2 ^ 64 := by
  rw [wrap, Int.bmod_def, count]
  omega

theorem wrap_below {n : Int} (low : -2 ^ 64 ≤ n) (high : n < -2 ^ 63) : wrap n = n + 2 ^ 64 := by
  rw [wrap, Int.bmod_def, count]
  omega

end Integer

end ShellToDeno
