import ShellToDeno.Proofs.Quoting.Words
import ShellToDeno.Number.Double
import Mathlib.Data.Nat.Basic
import Mathlib.Algebra.Order.Ring.Nat

/-!
# Numbers that doubles represent

An integer below 2 ^ 53 is read without rounding (`Double.read?_integer`), so that comparing two of
them as doubles compares the integers.
-/
namespace ShellToDeno

namespace Text

def natural? (t : Text) : Option Int := if t.isDigits then some (Shell.digitsValue 10 t) else none

/-- Decimal digits after at most one sign. -/
def integer? : Text → Option Int
  | [] => none
  | b :: rest =>
    if b == '-' then (natural? rest).map (-·) else if b == '+' then natural? rest
    else natural? (b :: rest)

/-- An integer that a double represents exactly. -/
def exactInteger? (t : Text) : Option Int := t.integer?.filter fun n => n.natAbs < 2 ^ 53

end Text

namespace Double

theorem roundDiv_mul {d : Nat} (positive : 0 < d) (k : Nat) : roundDiv (d * k) d = k := by
  simp [roundDiv, positive]

theorem mul_pow_lt {n a b : Nat} (small : n < 2 ^ a) (le : a ≤ b) (e : Nat) :
    n * 2 ^ e < 2 ^ (b + e) := by
  rw [Nat.pow_add]
  have below : n < 2 ^ b := Nat.lt_of_lt_of_le small (Nat.pow_le_pow_right (by decide) le)
  exact Nat.mul_lt_mul_of_pos_right below (Nat.two_pow_pos e)

/-- The last bit of a small number in steps is worth at least the unit that it is rounded to. -/
theorem unit_dvd {n : Nat} (small : n < 2 ^ 53) (e : Nat) :
    2 ^ (Nat.log2 (n * 2 ^ e) + 1 - 53) ∣ n * 2 ^ e := by
  refine Nat.dvd_trans (Nat.pow_dvd_pow 2 ?_) (Nat.dvd_mul_left (2 ^ e) n)
  by_cases zero : n * 2 ^ e = 0
  · simp [zero]
  · have bits := (Nat.log2_lt zero).2 (mul_pow_lt small (Nat.le_refl 53) e)
    omega

theorem nearest?_exact {n : Nat} (small : n < 2 ^ 53) : nearest? n 1 = some (n * 2 ^ 1074) := by
  obtain ⟨k, exact⟩ := unit_dvd small 1074
  have positive := Nat.two_pow_pos (Nat.log2 (n * 2 ^ 1074) + 1 - 53)
  have inside : n * 2 ^ 1074 < 2 ^ (1024 + 1074) := mul_pow_lt small (by decide) 1074
  have rounded : 2 ^ (Nat.log2 (n * 2 ^ 1074) + 1 - 53) *
      roundDiv (n * 2 ^ 1074) (2 ^ (Nat.log2 (n * 2 ^ 1074) + 1 - 53)) = n * 2 ^ 1074 := by
    have quotient := roundDiv_mul positive k
    rw [← exact] at quotient
    rw [quotient, ← exact]
  rw [nearest?]
  simp only [Nat.pow_eq, Nat.div_one, Nat.one_mul, rounded, -Nat.reducePow, -Nat.reduceAdd]
  rw [if_pos inside]

theorem scaled?_exact {n : Nat} (small : n < 2 ^ 53) : scaled? n 10 0 = some (n * 2 ^ 1074) := by
  by_cases zero : n = 0
  · rw [zero, Nat.zero_mul]
    rfl
  · have whole : n * Nat.pow 10 (Int.toNat 0) = n := Nat.mul_one n
    have large : ¬(0 : Int) > 5000 := by decide
    rw [scaled?, if_neg (by simpa using zero), if_pos (by decide), if_neg large, whole,
      nearest?_exact small]

/-- Digits are no marks, and no letters that a number might begin with. -/
theorem digit_classes : ∀ b : UInt8, Text.isDigit b →
    (b ≠ '_' ∧ b ≠ '.' ∧ digitValue? 10 b = some ((Shell.digitValue? 10 b).getD 0)) ∧
      Text.isOneOf "box" (lower b) = false ∧ lower b ≠ ('x' : Char).toUInt8 ∧ lower b ≠ 'i' ∧
      lower b ≠ 'n' := by
  decide +kernel

theorem mantissa_digits {t : Text} (digits : ∀ b ∈ t, Text.isDigit b) (value count : Nat) :
    mantissa 10 ⟨value, 0, count, false⟩ t =
      (⟨t.foldl (fun n b => n * 10 + (Shell.digitValue? 10 b).getD 0) value, 0, count + t.length,
        false⟩, []) := by
  induction t generalizing value count with
  | nil => rfl
  | cons b t ih =>
    obtain ⟨underscore, point, found⟩ := (digit_classes b (digits b (by simp))).1
    have later := ih (fun c inside => digits c (by simp [inside]))
      (value * 10 + (Shell.digitValue? 10 b).getD 0) (count + 1)
    simp [mantissa, underscore, point, found, later, Nat.add_assoc, Nat.add_comm 1]

theorem underscoresFit_digits {t : Text} (digits : ∀ b ∈ t, Text.isDigit b) (hex : Bool)
    {before : UInt8} (fits : before ≠ '_') : underscoresFit hex before t = true := by
  induction t generalizing before with
  | nil => simpa [underscoresFit] using fits
  | cons b t ih =>
    rw [underscoresFit, digits b (by simp)]
    exact ih (fun c inside => digits c (by simp [inside])) (by decide)

theorem underscoresOk_digits {t : Text} (digits : ∀ b ∈ t, Text.isDigit b) :
    underscoresOk t = true := by
  unfold underscoresOk
  split
  · next a b rest =>
    rw [(digit_classes b (digits b (by simp))).2.1, Bool.and_false]
    exact underscoresFit_digits digits false (by decide)
  · exact underscoresFit_digits digits false (by decide)

theorem unsigned?_digits {t : Text} (nonempty : t ≠ []) (digits : ∀ b ∈ t, Text.isDigit b)
    (small : Shell.digitsValue 10 t < 2 ^ 53) :
    unsigned? t = some (Shell.digitsValue 10 t * 2 ^ 1074) := by
  have decimal : (t[1]?.map lower) ≠ some ('x' : Char).toUInt8 := by
    intro marked
    obtain ⟨b, found, same⟩ := Option.map_eq_some_iff.1 marked
    exact (digit_classes b (digits b (List.mem_of_getElem? found))).2.2.1 same
  have length : t.length ≠ 0 := by simpa using nonempty
  have read := mantissa_digits digits 0 0
  simp only [Nat.zero_add] at read
  unfold unsigned?
  simp only [beq_eq_false_iff_ne.2 decimal, Bool.and_false, if_false, read, Bool.false_eq_true]
  rw [if_neg (by simp [length, underscoresOk_digits digits])]
  exact scaled?_exact small

theorem special?_digits {t : Text} (digits : ∀ b ∈ t, Text.isDigit b) : special? t = none := by
  cases t with
  | nil => rfl
  | cons b t =>
    have letter := (digit_classes b (digits b (by simp))).2.2.2.1
    have word (rest : Text) : ((b :: t).map lower == ('i' : Char).toUInt8 :: rest) = false := by
      simp [letter]
    have short : ((b :: t).map lower == ("inf" : Text)) = false := word _
    have long : ((b :: t).map lower == ("infinity" : Text)) = false := word _
    simp only [special?, short, long]
    rfl

theorem natural?_eq_some {t : Text} {n : Int} (natural : t.natural? = some n) :
    t ≠ [] ∧ (∀ b ∈ t, Text.isDigit b) ∧ n = Shell.digitsValue 10 t := by
  simp only [Text.natural?, Option.ite_none_right_eq_some, Option.some.injEq] at natural
  obtain ⟨isDigits, rfl⟩ := natural
  simp only [Text.isDigits, Bool.and_eq_true, Bool.not_eq_true', List.isEmpty_eq_false_iff,
    List.all_eq_true] at isDigits
  exact ⟨isDigits.1, isDigits.2, rfl⟩

/-- How a number is read once its sign is cut off. -/
theorem read?_signed {b : UInt8} {rest body : Text} {negative : Bool} {steps : Nat}
    (letter : lower b ≠ 'n')
    (sign : (if b == '-' then (true, rest) else if b == '+' then (false, rest) else
      (false, b :: rest)) =
      (negative, body))
    (special : special? body = none) (unsigned : unsigned? body = some steps) :
    read? (b :: rest) = some (.finite (if negative then -(steps : Int) else steps)) := by
  have first (after : Text) : ((b :: rest).map lower == ('n' : Char).toUInt8 :: after) = false := by
    simp [letter]
  have word : ((b :: rest).map lower == ("nan" : Text)) = false := first _
  simp only [read?, word, sign, special, unsigned, Bool.false_eq_true, if_false]
  rfl

theorem read?_natural {b : UInt8} {rest body : Text} {negative : Bool} {n : Int}
    (letter : lower b ≠ 'n')
    (sign : (if b == '-' then (true, rest) else if b == '+' then (false, rest) else
      (false, b :: rest)) =
      (negative, body))
    (natural : body.natural? = some n) (small : n.natAbs < 2 ^ 53) :
    read? (b :: rest) = some (.finite ((if negative then -n else n) * (2 ^ 1074 : Nat))) := by
  obtain ⟨nonempty, digits, rfl⟩ := natural?_eq_some natural
  rw [Int.natAbs_natCast] at small
  rw [read?_signed letter sign (special?_digits digits) (unsigned?_digits nonempty digits small),
    Int.natCast_mul]
  cases negative
  · rw [if_neg Bool.false_ne_true, if_neg Bool.false_ne_true]
  · rw [if_pos rfl, if_pos rfl, Int.neg_mul]

theorem read?_integer {t : Text} {n : Int} (exact : t.exactInteger? = some n) :
    read? t = some (.finite (n * (2 ^ 1074 : Nat))) := by
  obtain ⟨integer, small⟩ := Option.filter_eq_some_iff.1 exact
  rw [decide_eq_true_iff] at small
  cases t with
  | nil => cases integer
  | cons b rest =>
    rw [Text.integer?] at integer
    split at integer
    · next minus =>
      obtain ⟨m, natural, rfl⟩ := Option.map_eq_some_iff.1 integer
      rw [Int.natAbs_neg] at small
      have letter : lower b ≠ 'n' := by
        rw [eq_of_beq minus]
        decide
      exact read?_natural letter (if_pos minus) natural small
    · next minus =>
      split at integer
      · next plus =>
        have letter : lower b ≠ 'n' := by
          rw [eq_of_beq plus]
          decide
        exact read?_natural letter ((if_neg minus).trans (if_pos plus)) integer small
      · next plus =>
        have digit : Text.isDigit b := (natural?_eq_some integer).2.1 b (by simp)
        have letter := (digit_classes b digit).2.2.2.2
        exact read?_natural letter ((if_neg minus).trans (if_neg plus)) integer small

theorem equal_steps {k : Nat} (positive : 0 < k) (m n : Int) :
    (finite (m * k)).equal (finite (n * k)) = decide (m = n) := by
  have nonzero : (k : Int) ≠ 0 := by omega
  rw [equal, Bool.eq_iff_iff, beq_iff_eq, decide_eq_true_iff]
  exact Int.mul_eq_mul_right_iff nonzero

theorem less_steps {k : Nat} (positive : 0 < k) (m n : Int) :
    (finite (m * k)).less (finite (n * k)) = decide (m < n) := by
  rw [less, decide_eq_decide]
  exact Int.mul_lt_mul_right (by omega)

end Double

end ShellToDeno
