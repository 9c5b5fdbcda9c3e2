import Mathlib.Data.Int.GCD
import Mathlib.Tactic.LinearCombination
import ShellToDeno.Proofs.Counting

/-!
# Brace ranges

A range that fits in 64 bits stands for a progression (`progression`), written in one width where a
bound is padded. Of the other ranges `Walks` says what the walk from one bound to the other meets:
it comes round at the ends of the 64-bit integers, and it ends exactly where the values it can meet,
which are those congruent to the first one, do not all lie on this side of the last one.
-/
namespace ShellToDeno

namespace Integer

/-- Whether an integer can be written in so many bytes, the sign counted. -/
structure HasRoom (width : Nat) (i : Int) : Prop where
  positive : 0 < width
  digits : i.natAbs < 10 ^ width
  signed : i < 0 → 1 < width ∧ i.natAbs < 10 ^ (width - 1)

theorem hasRoom_of_isWritten {t : Text} (written : isWritten t = true) :
    HasRoom t.length (value t) := by
  have bounds {digits : Text} (isDigits : Text.isDigits digits = true) :
      0 < digits.length ∧ naturalValue digits < 10 ^ digits.length := by
    simp only [Text.isDigits, Bool.and_eq_true, List.all_eq_true] at isDigits
    refine ⟨List.length_pos_iff.2 ?_, naturalValue_lt isDigits.2⟩
    rintro rfl
    exact absurd isDigits.1 (by decide)
  unfold isWritten at written
  split at written
  · next digits =>
    obtain ⟨positive, small⟩ := bounds written
    change HasRoom (digits.length + 1) (-(naturalValue digits : Int))
    refine ⟨by omega, ?_, fun _ => ⟨by omega, ?_⟩⟩
    · rw [Int.natAbs_neg, Int.natAbs_natCast]
      exact Nat.lt_of_lt_of_le small (Nat.pow_le_pow_right (by decide) (Nat.le_succ _))
    · rwa [Int.natAbs_neg, Int.natAbs_natCast]
  · obtain ⟨positive, small⟩ := bounds written
    simp only [Text.isDigits, Bool.and_eq_true, List.all_eq_true] at written
    rw [value_of_isDigit written.2]
    exact ⟨positive, by rwa [Int.natAbs_natCast], fun negative => by omega⟩

variable {width other : Nat} {i a b : Int}

theorem HasRoom.mono (room : HasRoom width i) (le : width ≤ other) : HasRoom other i := by
  have more {k l : Nat} (le : k ≤ l) : 10 ^ k ≤ 10 ^ l := Nat.pow_le_pow_right (by decide) le
  refine ⟨by have := room.positive; omega, Nat.lt_of_lt_of_le room.digits (more le),
    fun negative => ?_⟩
  obtain ⟨wide, small⟩ := room.signed negative
  exact ⟨by omega, Nat.lt_of_lt_of_le small (more (by omega))⟩

theorem HasRoom.between (low : HasRoom width a) (high : HasRoom width b) (le : a ≤ i) (ge : i ≤ b) :
    HasRoom width i := by
  obtain ⟨positive, lowDigits, lowSigned⟩ := low
  have highDigits := high.digits
  refine ⟨positive, by omega, fun negative => ?_⟩
  obtain ⟨wide, small⟩ := lowSigned (by omega)
  exact ⟨wide, by omega⟩

end Integer

namespace Braces.Range
open Compile

/-- Where there is room, the width is the length. -/
theorem length_pad {width : Nat} {i : Int} (room : Integer.HasRoom width i) :
    (pad width i).length = width := by
  have positive := room.positive
  rw [pad, if_neg (by omega)]
  dsimp only
  split
  · next negative =>
    obtain ⟨wide, small⟩ := room.signed negative
    have short := Text.length_ofNat_le (by omega) small
    rw [List.length_append, List.length_append, List.length_replicate]
    have sign : ("-" : Text).length = 1 := rfl
    omega
  · have short := Text.length_ofNat_le positive room.digits
    rw [List.length_append, List.length_replicate]
    omega

variable {r : Range}

theorem size_pos (r : Range) : 0 < r.size := by
  rw [size]
  split
  · decide
  · split <;> omega

/-- The values of a range: from the first bound in steps towards the last, which is not passed. -/
def progression (r : Range) : List Int :=
  let first := Integer.value r.first
  let last := Integer.value r.last
  (List.range ((last - first).natAbs / r.size.natAbs + 1)).map fun k : Nat =>
    if last < first then first - r.size * k else first + r.size * k

/-- The loop over the values of a range, without limits. -/
def loop (r : Range) : Loop :=
  ⟨Integer.value r.first, Integer.value r.last,
    decide (Integer.value r.last < Integer.value r.first), r.size⟩

theorem inside_loop (r : Range) : r.loop.Inside r.loop.start := by
  rw [Loop.Inside, loop]
  simp only [decide_eq_true_eq]
  split <;> omega

theorem runs_progression (r : Range) : r.loop.Runs r.progression := by
  obtain ⟨steps, count, runs⟩ := Loop.exists_runsTo (inside_loop r) (size_pos r)
  have size : r.loop.step = (r.size.natAbs : Int) := by
    have positive := size_pos r
    change r.size = _
    omega
  have gap : r.loop.gap r.loop.start = ((Integer.value r.last - Integer.value r.first).natAbs :
      Int) := by
    rw [Loop.gap, loop]
    simp only [decide_eq_true_eq]
    split <;> omega
  rw [gap, size, ← Int.natCast_ediv, Int.natCast_inj] at count
  have same : r.progression = (List.range (steps + 1)).map fun k : Nat =>
      r.loop.start + r.loop.stride * k := by
    rw [progression, ← count]
    refine List.map_congr_left fun k _ => ?_
    rw [Loop.stride, loop]
    simp only [decide_eq_true_eq]
    split
    · rw [Int.neg_mul, Int.sub_eq_add_neg]
    · rfl
  exact ⟨_, same ▸ runs⟩

/-- No value of a range lies beyond its bounds. -/
theorem between_of_mem_progression {i : Int} (member : i ∈ r.progression) :
    min (Integer.value r.first) (Integer.value r.last) ≤ i ∧
      i ≤ max (Integer.value r.first) (Integer.value r.last) := by
  obtain ⟨k, low, rfl⟩ := List.mem_map.1 member
  have positive := size_pos r
  have whole : r.size * (k : Int) ≤ (Integer.value r.last - Integer.value r.first).natAbs := by
    have natural : r.size = (r.size.natAbs : Int) := by omega
    rw [natural, ← Int.natCast_mul, Int.ofNat_le, Nat.mul_comm]
    exact (Nat.le_div_iff_mul_le (by omega)).1 (Nat.lt_succ_iff.1 (List.mem_range.1 low))
  have forward : 0 ≤ r.size * (k : Int) := Int.mul_nonneg (by omega) (by omega)
  split <;> omega

/-- Whether bounds and step are written as 64-bit integers. -/
structure IsRead (r : Range) : Prop extends r.IsWritten where
  fitsFirst : Integer.Fits (Integer.value r.first)
  fitsLast : Integer.Fits (Integer.value r.last)
  fitsStep : ∀ step ∈ r.step, Integer.Fits (Integer.value step)

/-- What one step of the walk adds, in 64 bits. -/
def stride (r : Range) : Int :=
  Integer.wrap (if Integer.value r.last < Integer.value r.first then -r.size else r.size)

/-- A step loses its sign, unless it has no 64-bit opposite. -/
theorem wrap_natAbs {s : Int} (fits : Integer.Fits s) :
    (let size := if s < 0 then Integer.wrap (-s) else s
    if size = 0 then 1 else size) = Integer.wrap (if s = 0 then 1 else s.natAbs) := by
  rw [Integer.Fits, Integer.least, Integer.greatest] at fits
  dsimp only
  rcases lt_trichotomy s 0 with negative | rfl | positive
  · rw [if_pos negative, if_neg (Int.ne_of_lt negative), Int.ofNat_natAbs_of_nonpos (by omega)]
    apply if_neg
    by_cases least : s = -2 ^ 63
    · rw [least]
      decide
    · rw [Integer.wrap_eq (by omega) (by omega)]
      omega
  · decide
  · rw [if_neg (by omega), if_neg (by omega), if_neg (by omega),
      Integer.wrap_eq (by omega) (by omega)]
    omega

theorem IsWritten.distance?_eq_some_iff (whole : r.IsWritten) {distance : Int} :
    distance? r.step = some distance ↔
      (∀ step ∈ r.step, Integer.Fits (Integer.value step)) ∧ Integer.wrap r.size = distance := by
  cases step : r.step with
  | none =>
    have one : Integer.wrap r.size = 1 := by
      rw [size, step]
      decide
    simp [distance?, one]
  | some written =>
    have isWritten := whole.step written step
    by_cases fits : Integer.Fits (Integer.value written)
    · have found : Integer.read? written = some (Integer.value written) :=
        Integer.read?_eq_some_iff.2 ⟨isWritten, fits, rfl⟩
      have same : (let s := Integer.value written
          let size := if s < 0 then Integer.wrap (-s) else s
          if size = 0 then 1 else size) = Integer.wrap r.size := by
        rw [size, step]
        exact wrap_natAbs fits
      rw [distance?, found, Option.map_some, same]
      simp [fits]
    · have none : Integer.read? written = none := by
        rw [Integer.read?, if_neg]
        simp only [Bool.and_eq_true, decide_eq_true_eq]
        exact fun read => fits ⟨read.1.2, read.2⟩
      rw [distance?, none, Option.map_none]
      simp [fits]

theorem IsRead.values?_eq (read : r.IsRead) : r.values? =
    some ((walk r.stride (Integer.value r.last) walkLimit (Integer.value r.first) []).map
      (pad r.width)) := by
  rw [values?_eq_some_iff read.toIsWritten]
  refine ⟨read.fitsFirst, read.fitsLast, _, read.distance?_eq_some_iff.2 ⟨read.fitsStep, rfl⟩, ?_⟩
  have opposite : Integer.wrap (-Integer.wrap r.size) = Integer.wrap (-r.size) := by
    rw [← Int.zero_sub, ← Int.zero_sub r.size, Integer.wrap, Integer.wrap, Int.sub_bmod_bmod]
    rfl
  rw [stride, opposite]
  split <;> rfl

theorem IsWritten.isRead_of_values? (whole : r.IsWritten) {texts : List Text}
    (found : r.values? = some texts) :
    r.IsRead := by
  obtain ⟨first, last, distance, read, -⟩ := (values?_eq_some_iff whole).1 found
  exact ⟨whole, first, last, (whole.distance?_eq_some_iff.1 read).1⟩

theorem Fits.isRead (fits : r.Fits) (whole : r.IsWritten) : r.IsRead := by
  obtain ⟨distance, read⟩ := fits.exists_distance whole
  exact ⟨whole, fits.first, fits.last, (whole.distance?_eq_some_iff.1 read).1⟩

/-- The walk meets the values of the range exactly where the first value past the end fits. -/
theorem IsRead.walk_eq_progression_iff (read : r.IsRead) (small : r.size ≤ Integer.greatest) :
    walk r.stride (Integer.value r.last) walkLimit (Integer.value r.first) [] = r.progression ↔
      Integer.Fits r.past := by
  have distance := read.distance?_eq_some_iff.2 ⟨read.fitsStep, rfl⟩
  rcases distance?_cases distance with ⟨own, positive, -, step⟩ | ⟨-, large⟩
  · have stride : r.stride = if Integer.value r.last < Integer.value r.first then
        Integer.wrap (-r.size)
        else r.size := by
      rw [Range.stride, apply_ite Integer.wrap, own]
    rw [stride, ← runs_iff read.fitsFirst read.fitsLast positive small step,
      ofRange_eq read.fitsFirst read.fitsLast step]
    obtain ⟨final, runs⟩ := runs_progression r
    constructor
    · intro same
      rw [same]
      exact ⟨final, runs⟩
    · rintro ⟨other, again⟩
      exact (again.unique runs).1
  · exact absurd small (Int.not_le.2 large)

/-- A range that fits expands to its values. -/
theorem IsWritten.expand_of_fits (whole : r.IsWritten) (fits : r.Fits) :
    expand r.text = .ok (.values (r.progression.map (pad r.width))) := by
  have read := fits.isRead whole
  rw [expand_text_iff whole, read.values?_eq, (read.walk_eq_progression_iff fits.step).2 fits.past]
  refine ⟨?_, rfl⟩
  simp [progression]

/-- Bounds and steps of less than 62 bits leave room for the first value past the end. -/
theorem fits_of_small (first : (Integer.value r.first).natAbs < 2 ^ 62)
    (last : (Integer.value r.last).natAbs < 2 ^ 62)
    (step : ∀ step ∈ r.step, (Integer.value step).natAbs < 2 ^ 62) : r.Fits := by
  have size : r.size < 2 ^ 62 := by
    rw [Range.size]
    split
    · decide
    · next written same =>
      have small := step written same
      split <;> omega
  have positive := size_pos r
  refine ⟨?_, ?_, ?_, ?_⟩
  · rw [Integer.Fits, Integer.least, Integer.greatest]
    omega
  · rw [Integer.Fits, Integer.least, Integer.greatest]
    omega
  · rw [Integer.greatest]
    omega
  · rw [Integer.Fits, Integer.least, Integer.greatest, past]
    rw [Int.mul_add, Int.mul_add, Int.mul_one]
    split
    · have near := Int.mul_ediv_self_le (x := Integer.value r.first - Integer.value r.last)
        (Int.ne_of_gt positive)
      have forward : 0 ≤ r.size * ((Integer.value r.first - Integer.value r.last) / r.size) :=
        Int.mul_nonneg (by omega) (Int.ediv_nonneg (by omega) (by omega))
      omega
    · have near := Int.mul_ediv_self_le (x := Integer.value r.last - Integer.value r.first)
        (Int.ne_of_gt positive)
      have forward : 0 ≤ r.size * ((Integer.value r.last - Integer.value r.first) / r.size) :=
        Int.mul_nonneg (by omega) (Int.ediv_nonneg (by omega) (by omega))
      omega

/-- In a padded range every value is as long as the longer bound. -/
theorem IsWritten.length_pad (whole : r.IsWritten)
    (padded : anyPadded [r.first, r.last] = true) {i : Int}
    (member : i ∈ r.progression) : (pad r.width i).length = max r.first.length r.last.length := by
  have width : r.width = max r.first.length r.last.length := by rw [Range.width, if_pos padded]
  have first : Integer.HasRoom r.width (Integer.value r.first) :=
    (Integer.hasRoom_of_isWritten whole.first).mono (by omega)
  have last : Integer.HasRoom r.width (Integer.value r.last) :=
    (Integer.hasRoom_of_isWritten whole.last).mono (by omega)
  obtain ⟨low, high⟩ := between_of_mem_progression member
  rw [← width]
  apply Range.length_pad
  rcases Int.le_total (Integer.value r.first) (Integer.value r.last) with up | down
  · exact first.between last (by omega) (by omega)
  · exact last.between first (by omega) (by omega)

end Braces.Range

namespace Braces
open Range

theorem expand_list {body : Text} (comma : Text.contains body "," = true) :
    expand ("\x7b" ++ (body ++ "\x7d")) = .ok (.values (Text.splitOn "," body)) := by
  rw [expand, body?_braces]
  exact if_pos comma

/-- A range of small bounds and steps expands to its progression, in the width of the longer bound
where a bound is padded and in plain decimals elsewhere; a list expands to its parts. -/
theorem expand_progression_or_list :
    (∀ r : Range, r.IsWritten → (Integer.value r.first).natAbs < 2 ^ 62 →
      (Integer.value r.last).natAbs < 2 ^ 62 →
      (∀ step ∈ r.step, (Integer.value step).natAbs < 2 ^ 62) →
      ∃ expansion, expand r.text = .ok expansion ∧ expansion.multiplies = true ∧
        expansion.texts.map Integer.value = r.progression ∧
        expansion.texts.length = (Integer.value r.last - Integer.value r.first).natAbs /
          r.size.natAbs + 1 ∧
        (∀ i ∈ r.progression, min (Integer.value r.first) (Integer.value r.last) ≤ i ∧
          i ≤ max (Integer.value r.first) (Integer.value r.last)) ∧
        ((Integer.value r.last - Integer.value r.first).natAbs <
          r.size.natAbs * expansion.texts.length) ∧
        ∀ t ∈ expansion.texts, if anyPadded [r.first, r.last]
          then t.length = max r.first.length r.last.length else t = Text.ofInt (Integer.value t)) ∧
    ∀ body : Text, Text.contains body "," = true →
      ∃ texts, expand ("\x7b" ++ (body ++ "\x7d")) = .ok (.values texts) ∧
        (∀ t ∈ texts, (',' : UInt8) ∉ t) ∧ Text.join "," texts = body := by
  constructor
  · intro r whole first last step
    have fits := fits_of_small first last step
    have length : (r.progression.map (pad r.width)).length =
        (Integer.value r.last - Integer.value r.first).natAbs / r.size.natAbs + 1 := by
      rw [List.length_map, progression, List.length_map, List.length_range]
    have positive := size_pos r
    refine ⟨_, whole.expand_of_fits fits, rfl, map_value_map_pad _ _, length,
      fun i => between_of_mem_progression, ?_, ?_⟩
    · rw [Expansion.texts, length]
      exact Nat.lt_mul_div_succ _ (by omega)
    · intro t member
      obtain ⟨i, inside, rfl⟩ := List.mem_map.1 member
      split
      · next padded => exact whole.length_pad padded inside
      · next plain =>
        rw [value_pad, Range.width, if_neg plain]
        rfl
  · intro body comma
    exact ⟨_, expand_list comma, fun t => Text.not_mem_of_mem_splitOn, Text.join_splitOn _ _⟩

/-- A padded range that counts down through zero, and a list with an empty part. -/
theorem expand_progression_or_list_padded :
    (∃ expansion, expand "\x7b07..-5..-6\x7d" = .ok expansion ∧
      expansion.texts.map Integer.value = [7, 1, -5] ∧ ∀ t ∈ expansion.texts, t.length = 2) ∧
    ∃ texts, expand "\x7ba,,b\x7d" = .ok (.values texts) ∧ Text.join "," texts = "a,,b" := by
  have whole : Range.IsWritten ⟨"07", "-5", some "-6"⟩ := by
    refine ⟨by decide, by decide, ?_⟩
    rintro step ⟨⟩
    decide
  obtain ⟨expansion, expanded, -, values, -, -, -, each⟩ := expand_progression_or_list.1 _ whole
    (by decide) (by decide) (by rintro step ⟨⟩; decide)
  obtain ⟨texts, parts, -, joined⟩ := expand_progression_or_list.2 "a,,b" (by decide)
  exact ⟨⟨expansion, expanded, values, each⟩, texts, parts, joined⟩

end Braces

/-! What the walk over a range meets, whatever its bounds. -/

namespace Integer

theorem fits_wrap (i : Int) : Fits (wrap i) := by
  have low := Int.le_bmod (x := i) (m := count) (by decide)
  have high := Int.bmod_lt (x := i) (m := count) (by decide)
  rw [Fits, least, greatest, wrap]
  rw [count] at *
  omega

theorem wrap_of_fits {i : Int} (fits : Fits i) : wrap i = i := by
  rw [Fits, least, greatest] at fits
  exact wrap_eq (by omega) (by omega)

/-- All that a stride leads to is congruent to the start, modulo what the stride shares with the
number of integers. -/
theorem gcd_dvd_wrap_sub (i stride : Int) (k : Nat) :
    (Int.gcd stride count : Int) ∣ wrap (i + stride * k) - i := by
  have round : (count : Int) ∣ wrap (i + stride * k) - (i + stride * k) := Int.dvd_bmod_sub_self
  have steps : (Int.gcd stride count : Int) ∣ stride * k :=
    Dvd.dvd.mul_right (Int.gcd_dvd_left ..) _
  have sum := Int.dvd_add (Int.dvd_trans (Int.gcd_dvd_right ..) round) steps
  rwa [show wrap (i + stride * k) - (i + stride * k) + stride * k =
    wrap (i + stride * k) - i by omega] at sum

/-- It leads to all of these, and in fewer steps than there are integers. -/
theorem exists_wrap_eq {i stride x : Int} (fits : Fits x)
    (shared : (Int.gcd stride count : Int) ∣ x - i) :
    ∃ k : Nat, k < count ∧ wrap (i + stride * k) = x := by
  obtain ⟨q, far⟩ := shared
  rw [Int.gcd_eq_gcd_ab] at far
  generalize Int.gcdA stride count = a, Int.gcdB stride count = b at far
  have remainder := Int.emod_nonneg (a * q) (show (count : Int) ≠ 0 by decide)
  have less := Int.emod_lt_of_pos (a * q) (show (0 : Int) < count by decide)
  refine ⟨(a * q % count).toNat, by omega, ?_⟩
  have steps : i + stride * ((a * q % count).toNat : Int) =
      x + count * (-(b * q) - stride * (a * q / count)) := by
    rw [Int.toNat_of_nonneg remainder, Int.emod_def]
    linear_combination -far
  rw [steps, wrap, Int.add_mul_bmod_self_left]
  exact wrap_of_fits fits

end Integer

namespace Braces.Range
open Compile

/-- The values that the walk from one value on meets before it ends. -/
inductive Walks (stride last : Int) : Int → List Int → Prop
  | stop {i : Int} (outside : inside stride last i = false) : Walks stride last i []
  | next {i : Int} {values : List Int} (within : inside stride last i = true)
      (rest : Walks stride last (Integer.wrap (i + stride)) values) :
      Walks stride last i (i :: values)

variable {r : Range} {stride last i : Int} {values met : List Int} {fuel : Nat}

/-- A walk that ends needs no limit beyond its length. -/
theorem Walks.walk_eq (walks : Walks stride last i values) (enough : values.length < fuel)
    (met : List Int) :
    walk stride last fuel i met = met.reverse ++ values := by
  induction walks generalizing fuel met with
  | stop outside =>
    cases fuel with
    | zero => cases enough
    | succ fuel => rw [walk, outside, if_neg (by decide), List.append_nil]
  | next within rest ih =>
    cases fuel with
    | zero => cases enough
    | succ fuel =>
      rw [walk, if_pos within, ih (Nat.lt_of_succ_lt_succ enough), List.reverse_cons,
        List.append_assoc, List.singleton_append]

/-- A walk that stays below its limit has ended. -/
theorem walks_of_length_lt (short : (walk stride last fuel i met).length < met.length + fuel) :
    ∃ values, Walks stride last i values ∧ walk stride last fuel i met = met.reverse ++ values := by
  induction fuel generalizing i met with
  | zero => simp [walk] at short
  | succ fuel ih =>
    rw [walk] at short ⊢
    split
    · next within =>
      rw [if_pos within] at short
      have shorter : (walk stride last fuel (Integer.wrap (i + stride)) (i :: met)).length <
          (i :: met).length + fuel := by
        rw [List.length_cons]
        omega
      obtain ⟨values, walks, same⟩ := ih shorter
      exact ⟨i :: values, .next within walks, by simp [same]⟩
    · next outside => exact ⟨[], .stop (eq_false_of_ne_true outside), by simp⟩

theorem wrap_step (i stride : Int) (k : Nat) :
    Integer.wrap (Integer.wrap (i + stride) + stride * k) =
    Integer.wrap (i + stride * (k + 1 : Nat)) := by
  rw [Integer.wrap, Integer.wrap, Integer.wrap, Int.bmod_add_bmod]
  congr 1
  push_cast
  ring

/-- A walk ends where one of its values is past the last bound. -/
theorem Walks.exists_outside (walks : Walks stride last i values) (fits : Integer.Fits i) :
    ∃ k : Nat, inside stride last (Integer.wrap (i + stride * k)) = false := by
  induction walks with
  | stop outside =>
    refine ⟨0, ?_⟩
    rwa [Int.natCast_zero, Int.mul_zero, Int.add_zero, Integer.wrap_of_fits fits]
  | next _ _ ih =>
    obtain ⟨k, outside⟩ := ih (Integer.fits_wrap _)
    rw [wrap_step] at outside
    exact ⟨k + 1, outside⟩

theorem exists_walks_of_outside (k : Nat) (fits : Integer.Fits i)
    (outside : inside stride last (Integer.wrap (i + stride * k)) = false) :
    ∃ values, Walks stride last i values ∧ values.length ≤ k := by
  induction k generalizing i with
  | zero =>
    rw [Int.natCast_zero, Int.mul_zero, Int.add_zero, Integer.wrap_of_fits fits] at outside
    exact ⟨[], .stop outside, Nat.le_refl 0⟩
  | succ k ih =>
    cases here : inside stride last i with
    | false => exact ⟨[], .stop here, Nat.zero_le _⟩
    | true =>
      rw [← wrap_step] at outside
      obtain ⟨values, walks, few⟩ := ih (Integer.fits_wrap _) outside
      exact ⟨i :: values, .next here walks, Nat.succ_le_succ few⟩

theorem Walks.unique {others : List Int} (walks : Walks stride last i values)
    (again : Walks stride last i others) : values = others := by
  induction walks generalizing others with
  | stop outside =>
    cases again with
    | stop => rfl
    | next within => exact absurd (within.symm.trans outside) (by decide)
  | next within _ ih =>
    cases again with
    | stop outside => exact absurd (within.symm.trans outside) (by decide)
    | next _ rest => rw [ih rest]

/-- A walk ends exactly where it can meet a value past the last bound. -/
theorem exists_walks_iff (fits : Integer.Fits i) : (∃ values, Walks stride last i values) ↔
    ∃ x, Integer.Fits x ∧ inside stride last x = false ∧
    (Int.gcd stride Integer.count : Int) ∣ x - i := by
  constructor
  · rintro ⟨values, walks⟩
    obtain ⟨k, outside⟩ := walks.exists_outside fits
    exact ⟨_, Integer.fits_wrap _, outside, Integer.gcd_dvd_wrap_sub _ _ _⟩
  · rintro ⟨x, room, outside, shared⟩
    obtain ⟨k, -, rfl⟩ := Integer.exists_wrap_eq room shared
    obtain ⟨values, walks, -⟩ := exists_walks_of_outside k fits outside
    exact ⟨values, walks⟩

/-- A walk that ends does so within its limit. -/
theorem Walks.length_lt (walks : Walks stride last i values) (fits : Integer.Fits i) :
    values.length < walkLimit := by
  obtain ⟨k, outside⟩ := walks.exists_outside fits
  obtain ⟨steps, few, same⟩ :=
    Integer.exists_wrap_eq (Integer.fits_wrap _) (Integer.gcd_dvd_wrap_sub i stride k)
  rw [← same] at outside
  obtain ⟨others, again, short⟩ := exists_walks_of_outside steps fits outside
  rw [walks.unique again, walkLimit]
  omega

theorem IsRead.size_le (read : r.IsRead) : r.size ≤ 2 ^ 63 := by
  rw [size]
  split
  · decide
  · next written step =>
    have fits := read.fitsStep written step
    rw [Integer.Fits, Integer.least, Integer.greatest] at fits
    split <;> omega

theorem inside_up (up : 0 < stride) : inside stride last i = decide (i ≤ last) := by
  have other : ¬stride < 0 := by omega
  simp [inside, up, other]

theorem inside_down (down : stride < 0) : inside stride last i = decide (last ≤ i) := by
  have other : ¬0 < stride := by omega
  simp [inside, down, other]

/-- The walk meets nothing exactly where it counts up with a step that has no 64-bit opposite. -/
theorem IsRead.outside_iff (read : r.IsRead) :
    inside r.stride (Integer.value r.last) (Integer.value r.first) = false ↔
      Integer.greatest < r.size ∧ Integer.value r.first < Integer.value r.last := by
  have positive := size_pos r
  have most := read.size_le
  by_cases small : r.size ≤ Integer.greatest
  · have stride : r.stride = if Integer.value r.last < Integer.value r.first then -r.size else
        r.size := by
      rw [Integer.greatest] at small
      rw [Range.stride]
      split <;> exact Integer.wrap_eq (by omega) (by omega)
    rw [stride]
    split
    · rw [inside_down (by omega), decide_eq_false_iff_not]
      omega
    · rw [inside_up (by omega), decide_eq_false_iff_not]
      omega
  · have least : r.size = 2 ^ 63 := by
      rw [Integer.greatest] at small
      omega
    have stride : r.stride = -2 ^ 63 := by
      rw [Range.stride, least]
      split <;> decide
    rw [stride, inside_down (by decide), decide_eq_false_iff_not]
    omega

theorem walk_eq_nil_iff :
    walk stride last walkLimit i [] = [] ↔ inside stride last i = false := by
  rw [walkLimit, walk]
  split
  · next within =>
    have more := length_le_walk stride last Integer.count (Integer.wrap (i + stride)) [i]
    refine iff_of_false (fun none => ?_) (by rw [within]; decide)
    rw [none] at more
    cases more
  · next outside => simpa using outside

/-- The walk ends with the values of the range exactly where the first value past the end fits. -/
theorem IsRead.walks_progression_iff (read : r.IsRead) (small : r.size ≤ Integer.greatest) :
    Walks r.stride (Integer.value r.last) (Integer.value r.first) r.progression ↔
    Integer.Fits r.past := by
  have short : r.progression.length < walkLimit := by
    have first := read.fitsFirst
    have last := read.fitsLast
    rw [Integer.Fits, Integer.least, Integer.greatest] at first last
    have most := Nat.div_le_self (Integer.value r.last - Integer.value r.first).natAbs r.size.natAbs
    rw [progression, List.length_map, List.length_range, walkLimit, Integer.count]
    omega
  rw [← read.walk_eq_progression_iff small]
  constructor
  · intro walks
    rw [walks.walk_eq short, List.reverse_nil, List.nil_append]
  · intro same
    have ended : (walk r.stride (Integer.value r.last) walkLimit (Integer.value r.first)
        []).length <
        ([] : List Int).length + walkLimit := by
      rwa [same, List.length_nil, Nat.zero_add]
    obtain ⟨values, walks, met⟩ := walks_of_length_lt ended
    rw [same, List.reverse_nil, List.nil_append] at met
    rwa [met]

theorem read?_eq_some_iff {body : Text} : read? body = some r ↔ r.IsWritten ∧ r.inner = body := by
  constructor
  · intro found
    have whole := Text.join_splitOn ".." body
    rw [read?] at found
    split at found
    · next first last parts =>
      obtain ⟨written, ⟨⟩⟩ := Option.ite_none_right_eq_some.1 found
      rw [Bool.and_eq_true] at written
      rw [parts] at whole
      refine ⟨⟨written.1, written.2, by simp⟩, ?_⟩
      simpa [inner, Text.join, List.intercalate] using whole
    · next first last step parts =>
      obtain ⟨written, ⟨⟩⟩ := Option.ite_none_right_eq_some.1 found
      rw [Bool.and_eq_true, Bool.and_eq_true] at written
      rw [parts] at whole
      refine ⟨⟨written.1.1, written.1.2, ?_⟩, ?_⟩
      · rintro _ ⟨⟩
        exact written.2
      · simpa [inner, Text.join, List.intercalate] using whole
    · cases found
  · rintro ⟨whole, rfl⟩
    exact read?_inner whole

theorem body?_eq_some_iff {text body : Text} :
    body? text = some body ↔ text = "\x7b" ++ (body ++ "\x7d") := by
  constructor
  · intro found
    unfold body? at found
    split at found
    · next rest =>
      obtain ⟨ends, ⟨⟩⟩ := Option.ite_none_right_eq_some.1 found
      obtain ⟨front, rfl⟩ := List.isSuffixOf_iff_suffix.1 ends
      rw [List.length_append, Nat.add_sub_cancel, List.take_left]
      rfl
    · cases found
  · rintro rfl
    exact body?_braces body

theorem IsRead.values?_eq_nil_iff (read : r.IsRead) :
    r.values? = some [] ↔ Integer.greatest < r.size ∧
    Integer.value r.first < Integer.value r.last := by
  rw [read.values?_eq, Option.some.injEq, List.map_eq_nil_iff, walk_eq_nil_iff, read.outside_iff]

end Braces.Range

namespace Braces
open Range

/-- The only failure of an expansion. -/
theorem expand_eq_error_iff {text : Text} {fault : Fault} : expand text = .error fault ↔
    fault = .violated .postcondition ("range " ++ text ++ " expanded to nothing") ∧
      ∃ r : Range, r.IsRead ∧ r.text = text ∧ Integer.greatest < r.size ∧
        Integer.value r.first < Integer.value r.last := by
  constructor
  · intro failed
    rw [expand] at failed
    split at failed
    · cases failed
    · next body found =>
      split at failed
      · cases failed
      · split at failed
        · cases failed
        · next nothing =>
          obtain ⟨r, read, none⟩ := Option.bind_eq_some_iff.1 nothing
          obtain ⟨whole, rfl⟩ := read?_eq_some_iff.1 read
          have isRead := whole.isRead_of_values? none
          cases failed
          exact ⟨rfl, r, isRead, (body?_eq_some_iff.1 found).symm, isRead.values?_eq_nil_iff.1 none⟩
        · cases failed
  · rintro ⟨rfl, r, read, rfl, up⟩
    rw [expand_text read.toIsWritten, read.values?_eq_nil_iff.2 up]

theorem texts_ne_nil {text : Text} {expansion : Expansion}
    (expanded : expand text = .ok expansion) :
    expansion.texts ≠ [] := by
  rw [expand] at expanded
  split at expanded
  · cases expanded
    exact List.cons_ne_nil _ _
  · split at expanded
    · cases expanded
      exact Text.splitFrom_ne_nil _ _ _
    · split at expanded
      · cases expanded
        exact List.cons_ne_nil _ _
      · cases expanded
      · next some _ =>
        cases expanded
        exact fun none => some none

/-- An expansion that succeeds is not empty, and it fails for ranges alone that count up with a step
that has no 64-bit opposite. The walk over a range ends exactly where it can meet a value past the
last bound, and what it meets is what the range expands to. It meets the values of the range, which
lie between the bounds, exactly where the first value past the end fits in 64 bits too. -/
theorem expand_at_limits (text : Text) :
    (∀ expansion, expand text = .ok expansion → expansion.texts ≠ []) ∧
    (∀ fault, expand text = .error fault ↔
      fault = .violated .postcondition ("range " ++ text ++ " expanded to nothing") ∧
        ∃ r : Range, r.IsRead ∧ r.text = text ∧ Integer.greatest < r.size ∧
          Integer.value r.first < Integer.value r.last) ∧
    ∀ r : Range, r.IsRead → r.text = text →
      ((∃ values, Walks r.stride (Integer.value r.last) (Integer.value r.first) values) ↔
        ∃ i, Integer.Fits i ∧ inside r.stride (Integer.value r.last) i = false ∧
          (Int.gcd r.stride Integer.count : Int) ∣ i - Integer.value r.first) ∧
      (∀ values, Walks r.stride (Integer.value r.last) (Integer.value r.first) values →
        values ≠ [] → expand text = .ok (.values (values.map (pad r.width)))) ∧
      (r.size ≤ Integer.greatest →
        (Walks r.stride (Integer.value r.last) (Integer.value r.first) r.progression ↔
          Integer.Fits r.past)) ∧
      ∀ i ∈ r.progression, min (Integer.value r.first) (Integer.value r.last) ≤ i ∧
        i ≤ max (Integer.value r.first) (Integer.value r.last) := by
  refine ⟨fun _ => texts_ne_nil, fun _ => expand_eq_error_iff, ?_⟩
  rintro r read rfl
  refine ⟨exists_walks_iff read.fitsFirst, ?_, read.walks_progression_iff,
    fun i => between_of_mem_progression⟩
  intro values walks some
  rw [expand_text_iff read.toIsWritten, read.values?_eq,
    walks.walk_eq (walks.length_lt read.fitsFirst), List.reverse_nil, List.nil_append]
  exact ⟨mt List.map_eq_nil_iff.1 some, rfl⟩

/-- A walk that comes round and leaves the bounds, and one that never ends. -/
theorem expand_at_limits_coming_round :
    expand "\x7b9223372036854775000..9223372036854775001..4611686018427387905\x7d" = .ok (.values
      ["9223372036854775000", "-4611686018427388711", "-806", "4611686018427387099"]) ∧
    ¬∃ values, Walks (stride ⟨"9223372036854775807", "9223372036854775807", none⟩)
      (Integer.value "9223372036854775807") (Integer.value "9223372036854775807") values := by
  constructor
  · have read : Range.IsRead
        ⟨"9223372036854775000", "9223372036854775001", some "4611686018427387905"⟩ := by
      refine ⟨⟨by decide, by decide, ?_⟩, by decide, by decide, ?_⟩
      · rintro step ⟨⟩
        decide
      · rintro step ⟨⟩
        decide
    have walks : Walks 4611686018427387905 9223372036854775001 9223372036854775000
        [9223372036854775000, -4611686018427388711, -806, 4611686018427387099] :=
      .next (by decide) (.next (by decide)
        (.next (by decide) (.next (by decide) (.stop (by decide)))))
    exact ((expand_at_limits _).2.2 _ read rfl).2.1 _ walks (by decide)
  · have read : Range.IsRead ⟨"9223372036854775807", "9223372036854775807", none⟩ :=
      ⟨⟨by decide, by decide, by simp⟩, by decide, by decide, by simp⟩
    rw [((expand_at_limits _).2.2 _ read rfl).1]
    rintro ⟨i, fits, outside, -⟩
    have past : inside 1 Integer.greatest i = false := outside
    rw [inside_up (by decide), decide_eq_false_iff_not] at past
    exact past fits.2

end Braces

end ShellToDeno
