import Mathlib.Tactic.Ring
import ShellToDeno.Compile.Node
import ShellToDeno.Proofs.Integers
import ShellToDeno.Proofs.Splitting

/-!
# Loops that count

A loop over a brace range is written as a loop that counts. Its bounds are read anew, and what it
assigns is meant without limits, while the range is walked in 64 bits. The two meet exactly where
bounds and step fit in 64 bits and so does the first value past the end.
-/
namespace ShellToDeno

/-- An integer that fits in 64 bits. -/
def Integer.Fits (i : Int) : Prop := Integer.least ≤ i ∧ i ≤ Integer.greatest

instance (i : Int) : Decidable (Integer.Fits i) := inferInstanceAs (Decidable (_ ∧ _))

namespace Compile

/-- A loop that counts from one value to another, in steps of a given size. -/
structure Loop where
  start : Int
  stop : Int
  down : Bool
  step : Int

namespace Loop

/-- The three clauses of a loop for a variable. -/
def text (target : Text) (loop : Loop) : Text :=
  "for (" ++ target ++ " = " ++ Text.ofInt loop.start ++ "; " ++
    target ++ (if loop.down then " >= " else " <= ") ++ Text.ofInt loop.stop ++ "; " ++
    (if loop.step = 1 then target ++ (if loop.down then "--" else "++")
      else target ++ (if loop.down then " -= " else " += ") ++ Text.ofInt loop.step) ++ ") "

/-- The comparison. -/
def Inside (loop : Loop) (i : Int) : Prop := if loop.down then loop.stop ≤ i else i ≤ loop.stop

/-- The update. -/
def next (loop : Loop) (i : Int) : Int := if loop.down then i - loop.step else i + loop.step

/-- The values from one on for which the body runs, and the value at which the loop ends. -/
inductive RunsTo (loop : Loop) : Int → List Int → Int → Prop
  | stop {i : Int} (outside : ¬loop.Inside i) : RunsTo loop i [] i
  | next {i final : Int} {values : List Int} (inside : loop.Inside i)
      (rest : RunsTo loop (loop.next i) values final) : RunsTo loop i (i :: values) final

/-- The values for which the body of a loop runs. -/
def Runs (loop : Loop) (values : List Int) : Prop := ∃ final, loop.RunsTo loop.start values final

variable {loop : Loop} {i final : Int} {values : List Int}

theorem RunsTo.unique {others : List Int} {other : Int} (runs : loop.RunsTo i values final)
    (again : loop.RunsTo i others other) : values = others ∧ final = other := by
  induction runs generalizing others other with
  | stop outside =>
    cases again with
    | stop => exact ⟨rfl, rfl⟩
    | next inside => exact absurd inside outside
  | next inside rest ih =>
    cases again with
    | stop outside => exact absurd inside outside
    | next _ more =>
      obtain ⟨rfl, rfl⟩ := ih more
      exact ⟨rfl, rfl⟩

/-- How far the comparison is from failing. -/
def gap (loop : Loop) (i : Int) : Int := if loop.down then i - loop.stop else loop.stop - i

/-- What one update adds. -/
def stride (loop : Loop) : Int := if loop.down then -loop.step else loop.step

theorem inside_iff : loop.Inside i ↔ 0 ≤ loop.gap i := by
  rw [Inside, gap]
  split <;> omega

theorem next_eq : loop.next i = i + loop.stride := by
  rw [next, stride]
  split <;> omega

theorem gap_next : loop.gap (loop.next i) = loop.gap i - loop.step := by
  rw [gap, gap, next]
  split <;> omega

/-- A loop whose step leads nowhere or back does not end. -/
theorem not_runsTo (backward : loop.step ≤ 0) (inside : loop.Inside i) :
    ¬loop.RunsTo i values final := by
  intro runs
  induction runs with
  | stop outside => exact outside inside
  | next _ _ ih =>
    apply ih
    rw [inside_iff] at inside ⊢
    rw [gap_next]
    omega

/-- A loop ends at the first value past its end. -/
theorem runsTo_range (steps : Nat) (last : loop.step * steps ≤ loop.gap i)
    (forward : 0 < loop.step) (past : loop.gap i < loop.step * (steps + 1)) :
    loop.RunsTo i ((List.range (steps + 1)).map fun k : Nat => i + loop.stride * k)
      (i + loop.stride * (steps + 1)) := by
  have inside : loop.Inside i := by
    rw [inside_iff]
    have positive : 0 ≤ loop.step * steps := Int.mul_nonneg (by omega) (by omega)
    omega
  induction steps generalizing i with
  | zero =>
    have only : (List.range (0 + 1)).map (fun k : Nat => i + loop.stride * k) = [i] := by simp
    have ends : i + loop.stride * ((0 : Nat) + 1) = loop.next i := by
      rw [next_eq]
      simp
    rw [only, ends]
    apply RunsTo.next inside
    apply RunsTo.stop
    rw [inside_iff, gap_next]
    have once : loop.step * ((0 : Nat) + 1) = loop.step := by simp
    omega
  | succ steps ih =>
    have grown : loop.step * ((steps + 1 : Nat) : Int) = loop.step * steps + loop.step := by
      push_cast
      ring
    have further : loop.step * (((steps + 1 : Nat) : Int) + 1) =
        loop.step * (steps + 1) + loop.step := by
      push_cast
      ring
    have positive : 0 ≤ loop.step * steps := Int.mul_nonneg (by omega) (by omega)
    have ahead : loop.Inside (loop.next i) := by
      rw [inside_iff, gap_next]
      omega
    have shift (k : Nat) : i + loop.stride * ((k : Int) + 1) = loop.next i + loop.stride * k := by
      rw [next_eq]
      ring
    have split : (List.range (steps + 1 + 1)).map (fun k : Nat => i + loop.stride * k) =
        i :: (List.range (steps + 1)).map fun k : Nat => loop.next i + loop.stride * k := by
      rw [List.range_succ_eq_map]
      simp [Function.comp_def, shift]
    rw [split, shift, Nat.cast_add_one]
    exact .next inside (ih (i := loop.next i) (by rw [gap_next]; omega)
      (by rw [gap_next]; omega) ahead)

theorem exists_runsTo (inside : loop.Inside i) (forward : 0 < loop.step) :
    ∃ steps : Nat, loop.gap i / loop.step = steps ∧
      loop.RunsTo i ((List.range (steps + 1)).map fun k : Nat => i + loop.stride * k)
        (i + loop.stride * (steps + 1)) := by
  have near := Int.mul_ediv_add_emod (loop.gap i) loop.step
  have rest := Int.emod_nonneg (loop.gap i) (Int.ne_of_gt forward)
  have less := Int.emod_lt_of_pos (loop.gap i) forward
  have whole : 0 ≤ loop.gap i / loop.step := Int.ediv_nonneg (inside_iff.1 inside) (by omega)
  obtain ⟨steps, count⟩ := Int.eq_ofNat_of_zero_le whole
  rw [count] at near
  exact ⟨steps, count, runsTo_range steps (by omega) forward
    (by rw [Int.mul_add, Int.mul_one]; omega)⟩

/-- A loop moves towards its end. -/
theorem RunsTo.toward (forward : 0 < loop.step) (runs : loop.RunsTo i values final) :
    if loop.down then final ≤ i else i ≤ final := by
  induction runs with
  | stop => split <;> omega
  | next _ _ ih =>
    rw [Loop.next] at ih
    split at ih
    · next down =>
      rw [if_pos down]
      omega
    · next up =>
      rw [if_neg up]
      omega

end Loop

end Compile

namespace Braces.Range
open Compile

variable {loop : Loop} {i final : Int} {values : List Int}

theorem inside_stride (forward : 0 < loop.step) : inside loop.stride loop.stop i = true ↔
    loop.Inside i := by
  rw [Loop.inside_iff, Loop.gap, Loop.stride, inside]
  split <;> simp <;> omega

theorem length_le_walk (step last : Int) (fuel : Nat) (i : Int) (met : List Int) :
    met.length ≤ (walk step last fuel i met).length := by
  induction fuel generalizing i met with
  | zero => simp [walk]
  | succ fuel ih =>
    rw [walk]
    split
    · exact Nat.le_trans (by simp) (ih _ _)
    · simp

/-- Between two values that fit all values fit. -/
theorem fits_next (forward : 0 < loop.step) (here : Integer.Fits i) (there : Integer.Fits final)
    (toward : if loop.down then final ≤ loop.next i else loop.next i ≤ final) :
    Integer.Fits (loop.next i) := by
  rw [Integer.Fits, Loop.next] at *
  split at toward
  · next down =>
    rw [if_pos down]
    omega
  · next up =>
    rw [if_neg up]
    omega

theorem wrap_next (fits : Integer.Fits (loop.next i)) :
    Integer.wrap (i + loop.stride) = loop.next i := by
  rw [Integer.Fits, Integer.least, Integer.greatest] at fits
  rw [← Loop.next_eq, Integer.wrap_eq (by omega) (by omega)]

/-- A value that does not fit comes round to the side from which the walk came. -/
theorem inside_wrap_next (forward : 0 < loop.step) (small : loop.step ≤ Integer.greatest)
    (inside : loop.Inside i) (here : Integer.Fits i) (past : ¬Integer.Fits (loop.next i)) :
    loop.Inside (Integer.wrap (i + loop.stride)) := by
  rw [Integer.Fits, Integer.least, Integer.greatest] at here past
  rw [Integer.greatest] at small
  rw [← Loop.next_eq]
  rw [Loop.Inside] at inside ⊢
  rw [Loop.next] at past ⊢
  split at inside
  · next down =>
    rw [if_pos down] at past ⊢
    rw [if_pos down, Integer.wrap_below (by omega) (by omega)]
    omega
  · next up =>
    rw [if_neg up] at past ⊢
    rw [if_neg up, Integer.wrap_above (by omega) (by omega)]
    omega

/-- A walk meets the values of the loop where the first value past the end fits. -/
theorem walk_of_runsTo (forward : 0 < loop.step) (runs : loop.RunsTo i values final)
    (here : Integer.Fits i) (past : Integer.Fits final) {fuel : Nat} (enough : values.length < fuel)
    (met : List Int) : walk loop.stride loop.stop fuel i met = met.reverse ++ values := by
  induction runs generalizing fuel met with
  | stop outside =>
    cases fuel with
    | zero => cases enough
    | succ fuel => rw [walk, if_neg (mt (inside_stride forward).1 outside), List.append_nil]
  | next inside rest ih =>
    cases fuel with
    | zero => cases enough
    | succ fuel =>
      have fits := fits_next forward here past (rest.toward forward)
      rw [walk, if_pos ((inside_stride forward).2 inside), wrap_next fits,
        ih fits past (Nat.lt_of_succ_lt_succ enough), List.reverse_cons, List.append_assoc,
        List.singleton_append]

/-- Where it does not fit, the walk comes round and meets more. -/
theorem length_lt_walk (forward : 0 < loop.step) (small : loop.step ≤ Integer.greatest)
    (bound : Integer.Fits loop.stop) (runs : loop.RunsTo i values final) (inside : loop.Inside i)
    (here : Integer.Fits i) (past : ¬Integer.Fits final) {fuel : Nat}
      (enough : values.length < fuel)
    (met : List Int) :
    met.length + values.length < (walk loop.stride loop.stop fuel i met).length := by
  induction runs generalizing fuel met with
  | stop outside => exact absurd inside outside
  | @next j _ _ _ rest ih =>
    obtain ⟨fuel, rfl⟩ : ∃ more, fuel = more + 1 := ⟨fuel - 1, by omega⟩
    rw [walk, if_pos ((inside_stride forward).2 inside)]
    cases rest with
    | stop outside =>
      obtain ⟨fuel, rfl⟩ : ∃ more, fuel = more + 1 := ⟨fuel - 1, by simp at enough; omega⟩
      have round := inside_wrap_next forward small inside here past
      rw [walk, if_pos ((inside_stride forward).2 round)]
      refine Nat.lt_of_lt_of_le ?_ (length_le_walk _ _ _ _ _)
      simp
    | next again more =>
      have fits : Integer.Fits (loop.next j) := fits_next forward here bound again
      rw [wrap_next fits]
      have longer := ih again fits past (Nat.lt_of_succ_lt_succ enough) (j :: met)
      rw [List.length_cons] at longer ⊢
      omega

/-- The step of a range without its sign; a step of zero counts as one. -/
def size (r : Range) : Int :=
  match r.step with
  | none => 1
  | some written => if Integer.value written = 0 then 1 else (Integer.value written).natAbs

/-- The first value past the end of a range. -/
def past (r : Range) : Int :=
  let first := Integer.value r.first
  let last := Integer.value r.last
  if last < first then first - r.size * ((first - last) / r.size + 1)
  else first + r.size * ((last - first) / r.size + 1)

/-- Whether bounds, step and the first value past the end fit in 64 bits, the step without its
sign. -/
structure Fits (r : Range) : Prop where
  first : Integer.Fits (Integer.value r.first)
  last : Integer.Fits (Integer.value r.last)
  step : r.size ≤ Integer.greatest
  past : Integer.Fits r.past

end Braces.Range

theorem Integer.read?_eq_some_iff {t : Text} {i : Int} :
    read? t = some i ↔ isWritten t = true ∧ Fits (value t) ∧ value t = i := by
  rw [read?, Fits, Option.ite_none_right_eq_some]
  simp only [Bool.and_eq_true, decide_eq_true_eq, Option.some.injEq]
  tauto

theorem Integer.readClamped_of_fits {t : Text} (fits : Fits (value t)) :
    readClamped t = value t := by
  rw [readClamped, Int.min_eq_right fits.2, Int.max_eq_right fits.1]

namespace Compile

/-- The loop that a range is written as. -/
def Loop.ofRange (r : Braces.Range) : Loop where
  start := Integer.readClamped r.first
  stop := Integer.readClamped r.last
  down := decide (Integer.readClamped r.first > Integer.readClamped r.last)
  step := match r.step.bind Integer.read? with
    | some s => if s == 0 then 1 else if s < 0 then Integer.wrap (-s) else s
    | none => 1

theorem countingLoop_eq (target : Text) (r : Braces.Range) :
    countingLoop target r = (Loop.ofRange r).text target := by
  have clauses (loop : Loop) :
      (let sign : Text := if loop.down then "-" else "+"
      let update := if loop.step == 1 then target ++ sign ++ sign
        else target ++ " " ++ sign ++ "= " ++ Text.ofInt loop.step
      "for (" ++ target ++ " = " ++ Text.ofInt loop.start ++ "; " ++ target ++
        (if loop.down then " >= " else " <= ") ++ Text.ofInt loop.stop ++ "; " ++ update ++ ") ") =
      loop.text target := by
    have double : (("--" : Text) = "-" ++ "-") ∧ (("++" : Text) = "+" ++ "+") := by decide
    have spaced : ((" -= " : Text) = " " ++ "-" ++ "= ") ∧
        ((" += " : Text) = " " ++ "+" ++ "= ") := by decide
    obtain ⟨start, stop, down, step⟩ := loop
    cases down with
    | true => simp only [Loop.text, if_true, double, spaced, List.append_assoc, beq_iff_eq]
    | false =>
      simp only [Loop.text, Bool.false_eq_true, if_false, double, spaced, List.append_assoc,
        beq_iff_eq]
  exact clauses (Loop.ofRange r)

end Compile

namespace Braces.Range
open Compile

/-- A step that can be read: the loop has it too, unless it has no 64-bit opposite. -/
theorem distance?_cases {r : Range} {distance : Int} (read : distance? r.step = some distance) :
    (distance = r.size ∧ 0 < r.size ∧ r.size ≤ Integer.greatest ∧ (Loop.ofRange r).step = r.size) ∨
      (Loop.ofRange r).step ≤ 0 ∧ Integer.greatest < r.size := by
  cases step : r.step with
  | none =>
    rw [step] at read
    cases read
    left
    simp [size, Loop.ofRange, step, Integer.greatest]
  | some written =>
    rw [step] at read
    obtain ⟨s, found, rfl⟩ := Option.map_eq_some_iff.1 read
    obtain ⟨-, fits, rfl⟩ := Integer.read?_eq_some_iff.1 found
    have emitted : (Loop.ofRange r).step = if Integer.value written = 0 then 1
        else if Integer.value written < 0 then Integer.wrap (-Integer.value written)
        else Integer.value written := by
      simp [Loop.ofRange, step, found]
    have own : r.size = if Integer.value written = 0 then 1 else
        ((Integer.value written).natAbs : Int) := by
      rw [size, step]
    rw [Integer.Fits, Integer.least, Integer.greatest] at fits
    rw [Integer.greatest]
    rcases lt_trichotomy (Integer.value written) 0 with negative | zero | positive
    · have nonzero : Integer.value written ≠ 0 := by omega
      rw [if_neg nonzero, if_pos negative] at emitted
      rw [if_neg nonzero] at own
      by_cases least : Integer.value written = -2 ^ 63
      · right
        rw [emitted, own, least]
        decide
      · left
        rw [Integer.wrap_eq (by omega) (by omega)] at emitted
        dsimp only
        rw [if_pos negative, Integer.wrap_eq (by omega) (by omega), if_neg (by omega), emitted, own]
        omega
    · left
      rw [if_pos zero] at emitted own
      rw [emitted, own, zero]
      decide
    · left
      have nonzero : Integer.value written ≠ 0 := by omega
      rw [if_neg nonzero, if_neg (by omega)] at emitted
      rw [if_neg nonzero] at own
      have up : ¬Integer.value written < 0 := by omega
      refine ⟨?_, by omega, by omega, by omega⟩
      simp only [if_neg up, if_neg nonzero, own]
      omega

/-- The loop of a range whose bounds and step fit. -/
theorem ofRange_eq {r : Range} (first : Integer.Fits (Integer.value r.first))
    (last : Integer.Fits (Integer.value r.last)) (step : (Loop.ofRange r).step = r.size) :
    Loop.ofRange r = ⟨Integer.value r.first, Integer.value r.last,
      decide (Integer.value r.last < Integer.value r.first), r.size⟩ := by
  rw [← step, Loop.ofRange]
  simp [Integer.readClamped_of_fits first, Integer.readClamped_of_fits last]

/-- Walking a range gives the values of its loop exactly where the first value past the end fits. -/
theorem runs_walk_iff {loop : Loop} (low : Integer.Fits loop.start) (high : Integer.Fits loop.stop)
    (inside : loop.Inside loop.start) (forward : 0 < loop.step)
    (small : loop.step ≤ Integer.greatest) :
    loop.Runs (walk loop.stride loop.stop walkLimit loop.start []) ↔
      Integer.Fits (loop.start + loop.stride * (loop.gap loop.start / loop.step + 1)) := by
  obtain ⟨steps, count, runs⟩ := Loop.exists_runsTo inside forward
  rw [count]
  have enough : ((List.range (steps + 1)).map fun k : Nat => loop.start + loop.stride * k).length <
      walkLimit := by
    have most : (steps : Int) ≤ loop.gap loop.start := by
      rw [← count]
      exact Int.ediv_le_self _ (Loop.inside_iff.1 inside)
    have wide : loop.gap loop.start < 2 ^ 64 := by
      rw [Integer.Fits, Integer.least, Integer.greatest] at low high
      rw [Loop.gap]
      split <;> omega
    rw [List.length_map, List.length_range, walkLimit, Integer.count]
    omega
  constructor
  · rintro ⟨final, again⟩
    by_contra past
    have longer := length_lt_walk forward small high runs inside low past enough []
    rw [(again.unique runs).1, List.length_nil] at longer
    omega
  · intro past
    rw [walk_of_runsTo forward runs low past enough []]
    exact ⟨_, runs⟩

/-! Ranges as they are written. -/

/-- What stands between the braces of a range. -/
def inner (r : Range) : Text :=
  r.first ++ (".." ++ (r.last ++ (match r.step with
    | none => []
    | some step => ".." ++ step)))

def text (r : Range) : Text := "\x7b" ++ (r.inner ++ "\x7d")

/-- Whether bounds and step are written as integers. -/
structure IsWritten (r : Range) : Prop where
  first : Integer.isWritten r.first = true
  last : Integer.isWritten r.last = true
  step : ∀ step ∈ r.step, Integer.isWritten step = true

/-- Whether bounds and step are written as integers, the bounds without leading zeros. -/
structure IsPlain (r : Range) : Prop extends r.IsWritten where
  unpadded : anyPadded [r.first, r.last] = false

end Braces.Range

/-- A written integer holds digits and a minus sign. -/
theorem Integer.byte_of_isWritten {t : Text} (written : isWritten t = true) {b : UInt8}
    (member : b ∈ t) :
    b = Ascii.minus ∨ Text.isDigit b = true := by
  have digits {rest : Text} (all : Text.isDigits rest = true) (member : b ∈ rest) :
      Text.isDigit b = true := by
    simp only [Text.isDigits, Bool.and_eq_true, List.all_eq_true] at all
    exact all.2 b member
  unfold isWritten at written
  split at written
  · rcases List.mem_cons.1 member with rfl | later
    · exact .inl rfl
    · exact .inr (digits written later)
  · exact .inr (digits written member)

namespace Braces.Range
open Compile

variable {r : Range}

theorem byte_of_mem_inner (whole : r.IsWritten) {b : UInt8} (member : b ∈ r.inner) :
    b = Ascii.dot ∨ b = Ascii.minus ∨ Text.isDigit b = true := by
  have dots (inside : b ∈ (".." : Text)) : b = Ascii.dot := by
    have both : b ∈ [Ascii.dot, Ascii.dot] := inside
    simpa using both
  simp only [inner, List.mem_append] at member
  rcases member with first | between | last | step
  · exact .inr (Integer.byte_of_isWritten whole.first first)
  · exact .inl (dots between)
  · exact .inr (Integer.byte_of_isWritten whole.last last)
  · cases written : r.step with
    | none =>
      rw [written] at step
      cases step
    | some own =>
      rw [written] at step
      rcases List.mem_append.1 step with between | inside
      · exact .inl (dots between)
      · exact .inr (Integer.byte_of_isWritten (whole.step own written) inside)

theorem read?_inner (whole : r.IsWritten) : read? r.inner = some r := by
  have free {t : Text} (written : Integer.isWritten t = true) : Ascii.dot ∉ t := by
    intro inside
    rcases Integer.byte_of_isWritten written inside with same | digit
    · revert same
      decide
    · revert digit
      decide
  obtain ⟨first, last, step⟩ := r
  cases step with
  | none =>
    have parts : Text.splitOn ".." (inner ⟨first, last, none⟩) = [first, last] := by
      rw [inner, List.append_nil, Text.splitOn_dots (free whole.first),
        Text.splitOn_without_dots (free whole.last)]
    rw [read?, parts]
    simp [whole.first, whole.last]
  | some step =>
    have written := whole.step step rfl
    have parts : Text.splitOn ".." (inner ⟨first, last, some step⟩) = [first, last, step] := by
      rw [inner, Text.splitOn_dots (free whole.first), Text.splitOn_dots (free whole.last),
        Text.splitOn_without_dots (free written)]
    rw [read?, parts]
    simp [whole.first, whole.last, written]

theorem body?_braces (body : Text) : body? ("\x7b" ++ (body ++ "\x7d")) = some body := by
  have whole : body? ("\x7b" ++ (body ++ "\x7d")) = Text.cutEnd? "\x7d" (body ++ "\x7d") := rfl
  have ends : ("\x7d" : Text).isSuffixOf (body ++ "\x7d") = true := by
    rw [List.isSuffixOf_iff_suffix]
    exact List.suffix_append _ _
  rw [whole, Text.cutEnd?, if_pos ends, List.length_append, Nat.add_sub_cancel, List.take_left]

theorem body?_text (r : Range) : body? r.text = some r.inner := body?_braces r.inner

theorem countingRange?_text (plain : r.IsPlain) : countingRange? r.text = some r := by
  rw [countingRange?, body?_text]
  simp [read?_inner plain.toIsWritten, plain.unpadded]

theorem expand_text (whole : r.IsWritten) : expand r.text = match r.values? with
    | none => .ok (.literal r.text)
    | some [] => .error (.violated .postcondition ("range " ++ r.text ++ " expanded to nothing"))
    | some texts => .ok (.values texts) := by
  have comma : Text.contains r.inner "," = false := by
    apply Text.contains_eq_false
    intro inside
    rcases byte_of_mem_inner whole inside with same | same | digit
    · revert same
      decide
    · revert same
      decide
    · revert digit
      decide
  rw [expand, body?_text]
  dsimp only
  rw [if_neg (by rw [comma]; decide)]
  cases found : r.values? with
  | none => simp only [read?_inner whole, Option.bind_some, found]
  | some texts => cases texts <;> simp only [read?_inner whole, Option.bind_some, found]

/-- A range that can be read expands to its values, if there are any. -/
theorem expand_text_iff (whole : r.IsWritten) {texts : List Text} :
    expand r.text = .ok (.values texts) ↔ texts ≠ [] ∧ r.values? = some texts := by
  rw [expand_text whole]
  cases r.values? with
  | none => simp
  | some values =>
    cases values with
    | nil => simp
    | cons first rest =>
      simp only [Except.ok.injEq, Expansion.values.injEq, Option.some.injEq]
      constructor
      · rintro rfl
        exact ⟨List.cons_ne_nil _ _, rfl⟩
      · exact And.right

/-- The values of a range as they are written. -/
theorem values?_eq_some_iff (whole : r.IsWritten) {texts : List Text} :
    r.values? = some texts ↔ Integer.Fits (Integer.value r.first) ∧
    Integer.Fits (Integer.value r.last) ∧ ∃ distance, distance? r.step = some distance ∧
        texts = (walk (if Integer.value r.last < Integer.value r.first then Integer.wrap (-distance)
          else distance) (Integer.value r.last) walkLimit (Integer.value r.first) []).map
            (pad r.width) := by
  rw [values?]
  constructor
  · intro found
    obtain ⟨first, readFirst, found⟩ := Option.bind_eq_some_iff.1 found
    obtain ⟨last, readLast, found⟩ := Option.bind_eq_some_iff.1 found
    obtain ⟨distance, step, found⟩ := Option.bind_eq_some_iff.1 found
    obtain ⟨-, low, rfl⟩ := Integer.read?_eq_some_iff.1 readFirst
    obtain ⟨-, high, rfl⟩ := Integer.read?_eq_some_iff.1 readLast
    exact ⟨low, high, distance, step, (Option.some.inj found).symm⟩
  · rintro ⟨low, high, distance, step, rfl⟩
    rw [Integer.read?_eq_some_iff.2 ⟨whole.first, low, rfl⟩,
      Integer.read?_eq_some_iff.2 ⟨whole.last, high, rfl⟩, step]
    rfl

theorem inside_ofRange (r : Range) : (Loop.ofRange r).Inside (Loop.ofRange r).start := by
  rw [Loop.inside_iff, Loop.gap]
  split
  · next down =>
    have greater : Integer.readClamped r.first > Integer.readClamped r.last :=
      of_decide_eq_true down
    change 0 ≤ Integer.readClamped r.first - Integer.readClamped r.last
    omega
  · next up =>
    have less : ¬Integer.readClamped r.first > Integer.readClamped r.last := fun greater =>
      up (decide_eq_true greater)
    change 0 ≤ Integer.readClamped r.last - Integer.readClamped r.first
    omega

/-- The walk of a range whose bounds and step fit is that of its loop. -/
theorem runs_iff (first : Integer.Fits (Integer.value r.first))
    (last : Integer.Fits (Integer.value r.last))
    (positive : 0 < r.size) (small : r.size ≤ Integer.greatest)
      (step : (Loop.ofRange r).step = r.size) :
    (Loop.ofRange r).Runs (walk (if Integer.value r.last < Integer.value r.first
      then Integer.wrap (-r.size) else r.size) (Integer.value r.last) walkLimit
        (Integer.value r.first) []) ↔
      Integer.Fits r.past := by
  have inside := inside_ofRange r
  rw [ofRange_eq first last step] at inside ⊢
  have opposite : Integer.wrap (-r.size) = -r.size := by
    rw [Integer.greatest] at small
    exact Integer.wrap_eq (by omega) (by omega)
  rw [opposite, past]
  by_cases down : Integer.value r.last < Integer.value r.first
  · rw [decide_eq_true down] at inside ⊢
    have walked := runs_walk_iff first last inside positive small
    rw [if_pos down, if_pos down, Int.sub_eq_add_neg, ← Int.neg_mul]
    exact walked
  · rw [decide_eq_false down] at inside ⊢
    have walked := runs_walk_iff first last inside positive small
    rw [if_neg down, if_neg down]
    exact walked

theorem Fits.exists_distance (fits : r.Fits) (whole : r.IsWritten) :
    ∃ distance, distance? r.step = some distance := by
  have small := fits.step
  cases step : r.step with
  | none => exact ⟨1, rfl⟩
  | some written =>
    have fitting : Integer.Fits (Integer.value written) := by
      rw [size, step, Integer.greatest] at small
      rw [Integer.Fits, Integer.least, Integer.greatest]
      dsimp only at small
      split at small <;> omega
    rw [distance?, Integer.read?_eq_some_iff.2 ⟨whole.step written step, fitting, rfl⟩]
    exact ⟨_, rfl⟩

/-- What is written can be read, padded or not. -/
theorem value_pad (width : Nat) (i : Int) : Integer.value (pad width i) = i := by
  obtain ⟨-, digits, same⟩ := Text.exists_digits i.natAbs
  rw [pad]
  split
  · exact Integer.value_ofInt i
  · dsimp only
    split
    · next negative =>
      rw [List.append_assoc]
      change -(Integer.naturalValue (List.replicate _ ('0' : UInt8) ++ Text.ofNat i.natAbs) : Int) =
          i
      rw [Integer.naturalValue_zeros, same]
      omega
    · next positive =>
      have padded : ∀ b ∈ List.replicate (width - (Text.ofNat i.natAbs).length) ('0' : UInt8) ++
          Text.ofNat i.natAbs, Text.isDigit b = true := by
        intro b member
        rcases List.mem_append.1 member with zero | digit
        · rw [List.eq_of_mem_replicate zero]
          decide
        · exact digits b digit
      rw [Integer.value_of_isDigit padded, Integer.naturalValue_zeros, same]
      omega

theorem map_value_map_pad (width : Nat) (list : List Int) :
    (list.map (pad width)).map Integer.value = list := by
  rw [List.map_map]
  exact (List.map_congr_left fun i _ => value_pad width i).trans (List.map_id list)

/-- A range expands to the values of its loop exactly where it fits. -/
theorem IsWritten.expands_iff (whole : r.IsWritten) :
    (∃ texts, expand r.text = .ok (.values texts) ∧
      (Loop.ofRange r).Runs (texts.map Integer.value)) ↔
      r.Fits := by
  constructor
  · rintro ⟨texts, expanded, runs⟩
    obtain ⟨-, found⟩ := (expand_text_iff whole).1 expanded
    obtain ⟨first, last, distance, read, rfl⟩ := (values?_eq_some_iff whole).1 found
    rw [map_value_map_pad] at runs
    rcases distance?_cases read with ⟨rfl, positive, small, step⟩ | ⟨backward, -⟩
    · exact ⟨first, last, small, (runs_iff first last positive small step).1 runs⟩
    · obtain ⟨final, runs⟩ := runs
      exact absurd runs (Loop.not_runsTo backward (inside_ofRange r))
  · intro fits
    obtain ⟨distance, read⟩ := fits.exists_distance whole
    rcases distance?_cases read with ⟨rfl, positive, small, step⟩ | ⟨-, large⟩
    · have runs := (runs_iff fits.first fits.last positive small step).2 fits.past
      refine ⟨_, (expand_text_iff whole).2 ⟨?_, (values?_eq_some_iff whole).2
        ⟨fits.first, fits.last, _, read, rfl⟩⟩, by rwa [map_value_map_pad]⟩
      rw [Ne, List.map_eq_nil_iff]
      intro none
      rw [none] at runs
      obtain ⟨final, runs⟩ := runs
      cases runs with
      | stop outside => exact outside (inside_ofRange r)
    · exact absurd fits.step (Int.not_le.2 large)

end Braces.Range

namespace Compile
open Arguments

theorem isAllArguments_text (r : Braces.Range) : isAllArguments r.text = false := by
  have opened : r.text = Ascii.openBrace :: (r.inner ++ "\x7d") := rfl
  have start : Text.cutStart "\"" r.text = r.text := by
    rw [opened]
    rfl
  have within : Text.cutEnd "\"" r.text <+: r.text := by
    rw [Text.cutEnd, Text.cutEnd?]
    split
    · exact List.take_prefix _ _
    · exact List.prefix_refl _
  have differ {b : UInt8} {rest : Text} (other : b ≠ Ascii.openBrace) :
      (Text.cutEnd "\"" r.text == b :: rest) = false := by
    rw [beq_eq_false_iff_ne]
    intro same
    rw [same, opened, List.cons_prefix_cons] at within
    exact other within.1
  have first : (Text.cutEnd "\"" r.text == "$@") = false := differ (by decide)
  have second : (Text.cutEnd "\"" r.text == "$\x7b@\x7d") = false := differ (by decide)
  rw [isAllArguments, start, first, second]
  rfl

/-- A loop over one range without leading zeros in its bounds is written as a loop that counts. The
range expands, and to the values for which the body of that loop runs, exactly where its bounds, its
step and the first value past its end fit in 64 bits. -/
theorem counting_loops_agree_iff (c : Compiler) {n name mark : Node} {header rest only : List Node}
    (headerText : Text) {r : Braces.Range} (plain : r.IsPlain)
    (named : n.child? [.variableName] = some name)
    (items : header.dropWhile (fun child => child.kind != .token "in") = mark :: rest)
    (sole : groups (rest.filter fun child => child.kind != .token ";") = [only])
    (spelled : textOf only = r.text) :
    forHeader c n header headerText = (do
      let target ← env name.text
      return some ((Loop.ofRange r).text target)) ∧
    ((∃ texts, Braces.expand r.text = .ok (.values texts) ∧
      (Loop.ofRange r).Runs (texts.map Integer.value)) ↔ r.Fits) := by
  refine ⟨?_, plain.toIsWritten.expands_iff⟩
  have only : countingRange? r.text = some r := Braces.Range.countingRange?_text plain
  rw [forHeader, named]
  simp only [items, sole, spelled, Option.map_some, isAllArguments_text, Option.getD_some,
    Bool.false_eq_true, if_false, Option.bind_some, only, countingLoop_eq]

/-- A loop whose step jumps over the end. -/
theorem counting_loops_agree_iff_jumping :
    forHeader (.ofFuel .standard 0)
        ⟨.forStatement, [], [⟨.variableName, "i", [], [], 4, 5⟩], [], 0, 19⟩
        [⟨.token "in", "in", [], [], 6, 8⟩, ⟨.braceExpression, "\x7b9..-2..4\x7d", [], [], 9, 19⟩]
          [] =
      (do
        let target ← env "i"
        return some ((Loop.ofRange ⟨"9", "-2", some "4"⟩).text target)) ∧
    ∃ texts, Braces.expand "\x7b9..-2..4\x7d" = .ok (.values texts) ∧
      (Loop.ofRange ⟨"9", "-2", some "4"⟩).Runs (texts.map Integer.value) := by
  have plain : Braces.Range.IsPlain ⟨"9", "-2", some "4"⟩ := by
    refine ⟨⟨by decide, by decide, ?_⟩, by decide⟩
    rintro step ⟨⟩
    decide
  have fits : Braces.Range.Fits ⟨"9", "-2", some "4"⟩ :=
    ⟨by decide, by decide, by decide, by decide⟩
  have items : List.dropWhile (fun child : Node => child.kind != .token "in")
      [⟨.token "in", "in", [], [], 6, 8⟩, ⟨.braceExpression, "\x7b9..-2..4\x7d", [], [], 9, 19⟩] =
      ⟨.token "in", "in", [], [], 6, 8⟩ ::
        [⟨.braceExpression, "\x7b9..-2..4\x7d", [], [], 9, 19⟩] := rfl
  have spelled : textOf [⟨.braceExpression, "\x7b9..-2..4\x7d", [], [], 9, 19⟩] =
      Braces.Range.text ⟨"9", "-2", some "4"⟩ := rfl
  have agree := counting_loops_agree_iff (.ofFuel .standard 0)
    (n := ⟨.forStatement, [], [⟨.variableName, "i", [], [], 4, 5⟩], [], 0, 19⟩)
    [] plain rfl items rfl spelled
  exact ⟨agree.1, agree.2.2 fits⟩

/-- A range whose last value does not fit is not expanded, but its loop counts up to the greatest
integer. -/
theorem counting_loop_of_wide_range :
    Braces.expand "\x7b1..9223372036854775808\x7d" =
    .ok (.literal "\x7b1..9223372036854775808\x7d") ∧
    (countingRange? "\x7b1..9223372036854775808\x7d").map (countingLoop "i") =
      some "for (i = 1; i <= 9223372036854775807; i++) " := by
  constructor
  · decide
  · decide

end Compile

end ShellToDeno
