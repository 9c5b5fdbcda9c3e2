import ShellToDeno.Proofs.Compile.Compiled

/-!
# Conditions and their negations

A compiled fragment has a condition just when it has a negation, and then one of the two texts holds
when the other fails (`Compiler.conditions_have_opposites`). A fragment supplies both, or it
supplies the condition and its negation is derived from that, or both are derived from its call or
its value; a group, a silenced lookup and a negated command pass on the conditions of another
fragment.
-/
namespace ShellToDeno

theorem OppositeIfAny.of_map (held : Option Text) :
    OppositeIfAny held (held.map fun v => "!(" ++ v ++ ")") := by
  cases held with
  | none => exact .none
  | some v => exact .some (.negated v)

namespace CompileState

variable {A : FragmentId → Prop} {s : CompileState} {id : FragmentId} {holds fails : Option Text}

section
variable (sound : Sound A s) (owned : Owns A s id)
  (known : s.known? id (some .condition) = some holds)
  (negated : s.known? id (some .negation) = some fails)
include sound owned known negated

/-- Without a condition of its own a fragment is decided by its call, or else by its value. -/
theorem Sound.opposite_of_derived (condition : s.recipe? id .condition = none)
    (negation : s.recipe? id .negation = none) (success : s.recipe? id .success = none)
    (failure : s.recipe? id .failure = none) : OppositeIfAny holds fails := by
  obtain ⟨succeeds, knownSuccess, found⟩ :=
    Option.bind_eq_some_iff.1 (sound.derived owned condition known)
  obtain ⟨call, knownCall, rfl⟩ := sound.derived_via owned (fun _ => rfl) success knownSuccess
  have denied := sound.derived owned negation negated
  simp only [Form.derivation, condition, Option.isSome_none, Bool.false_eq_true, if_false] at denied
  obtain ⟨failing, knownFailure, denied⟩ := Option.bind_eq_some_iff.1 denied
  obtain ⟨again, sameCall, rfl⟩ := sound.derived_via owned (fun _ => rfl) failure knownFailure
  obtain rfl := Option.some.inj (knownCall.symm.trans sameCall)
  cases call with
  | some v =>
    obtain rfl := Option.some.inj found
    obtain rfl := Option.some.inj denied
    exact .some (.exitCode v)
  | none =>
    obtain ⟨held, knownHeld, denied⟩ := Option.bind_eq_some_iff.1 denied
    obtain rfl := Option.some.inj (known.symm.trans knownHeld)
    obtain rfl := Option.some.inj denied
    exact .of_map _

/-- A condition that is supplied is negated as it stands. -/
theorem Sound.opposite_of_supplied {recipe : Recipe}
    (condition : s.recipe? id .condition = some recipe)
    (negation : s.recipe? id .negation = none) (there : ∃ v, holds = some v) :
    OppositeIfAny holds fails := by
  obtain ⟨v, rfl⟩ := there
  have denied := sound.derived owned negation negated
  simp only [Form.derivation, condition, Option.isSome_some, if_true, Query.eval, known,
    Option.bind_some] at denied
  obtain rfl := Option.some.inj denied
  exact .some (.negated v)

/-- Sides that are joined have no call, so a condition that is missing has no negation either. -/
theorem Sound.opposite_of_joined {recipe : Recipe}
    (condition : s.recipe? id .condition = some recipe)
    (negation : s.recipe? id .negation = none) (failure : s.recipe? id .failure = none)
    (commands : ∀ form ∈ Form.commands, s.recipe? id form = none) : OppositeIfAny holds fails := by
  cases holds with
  | some v => exact sound.opposite_of_supplied owned known negated condition negation ⟨v, rfl⟩
  | none =>
    have denied := sound.derived owned negation negated
    simp only [Form.derivation, condition, Option.isSome_some, if_true, Query.eval, known,
      Option.bind_some] at denied
    obtain ⟨failing, knownFailure, denied⟩ := Option.bind_eq_some_iff.1 denied
    obtain ⟨call, knownCall, rfl⟩ := sound.derived_via owned (fun _ => rfl) failure knownFailure
    obtain rfl := sound.redirectedCall_eq_none owned commands knownCall
    simp only [Option.map_none, Query.via, Query.eval, known, Option.bind_some] at denied
    obtain rfl := Option.some.inj denied
    exact .none

theorem Sound.opposite_of_decides (decides : Decides (s.recipe? id)) :
    OppositeIfAny holds fails := by
  cases decides with
  | derived condition negation success failure =>
    exact sound.opposite_of_derived owned known negated condition negation success failure
  | text condition negation =>
    have held := sound.supplied owned condition rfl known
    exact sound.opposite_of_supplied owned known negated condition negation
      ⟨_, (Option.some.inj held).symm⟩
  | joined condition negation failure commands =>
    exact sound.opposite_of_joined owned known negated condition negation failure commands
  | texts condition negation opposite =>
    obtain rfl := Option.some.inj (sound.supplied owned condition rfl known)
    obtain rfl := Option.some.inj (sound.supplied owned negation rfl negated)
    exact .some opposite
  | @check operand condition negation =>
    obtain rfl := (sound.justified owned.1 known).checked condition
    obtain rfl := (sound.justified owned.1 negated).checked negation
    exact .some (.lookup operand)

end

theorem Made.opposite (sound : Sound A s) (made : Made A s id)
    (known : s.known? id (some .condition) = some holds)
    (negated : s.known? id (some .negation) = some fails) : OppositeIfAny holds fails := by
  induction made generalizing holds fails with
  | plain owned _ decides | piped owned decides =>
    exact sound.opposite_of_decides owned known negated decides
  | same owned _ condition negation _ ih =>
    refine ih ?_ ?_
    · simpa [Query.eval] using sound.supplied owned condition rfl known
    · simpa [Query.eval] using sound.supplied owned negation rfl negated
  | swapped owned _ condition negation _ ih =>
    refine (ih ?_ ?_).symm
    · simpa [Query.eval] using sound.supplied owned negation rfl negated
    · simpa [Query.eval] using sound.supplied owned condition rfl known

end CompileState

open CompileState

/-- Every fragment that is compiled has a condition just when it has a negation, and they are
opposite; in whichever order they are read, and after any reads. -/
theorem Compiler.conditions_have_opposites (registry : Registry) {fuel : Nat} (positive : 0 < fuel)
    (s : CompileState) (n : Node) (context : Context) :
    let c := ofFuel registry fuel
    ∃ id t, Compile.run s (c.compile n context) = (.ok id, t) ∧ ∀ history : List Form,
      let u := t.afterReading c id history
      (∀ holds fails w, Compile.run u (c.read id .condition) = (.ok holds, w) →
        (Compile.run w (c.read id .negation)).1 = .ok fails → OppositeIfAny holds fails) ∧
      ∀ holds fails w, Compile.run u (c.read id .negation) = (.ok fails, w) →
        (Compile.run w (c.read id .condition)).1 = .ok holds → OppositeIfAny holds fails := by
  intro c
  obtain ⟨id, t, ran, compiled, _⟩ := exists_compile registry positive s n context
  have lawful : Lawful c := lawful_ofFuel registry fuel
  have both (u : CompileState) (compiled : Compiled (s.fragments.size ≤ ·) u id)
      {first second : Form}
      {one two : Option Text} {w : CompileState}
        (ran : Compile.run u (c.read id first) = (.ok one, w))
      (again : (Compile.run w (c.read id second)).1 = .ok two) :
      ∃ v, Compiled (s.fragments.size ≤ ·) v id ∧ v.known? id (some first) = some one ∧
        v.known? id (some second) = some two := by
    obtain ⟨later, _, known⟩ := compiled.read lawful first
    rw [ran] at later known
    obtain ⟨last, step, knownToo⟩ := later.read lawful second
    exact ⟨_, last, step.known (known one rfl), knownToo two again⟩
  refine ⟨id, t, ran, fun history => ⟨fun holds fails w first second => ?_,
    fun holds fails w first second => ?_⟩⟩
  · obtain ⟨v, last, known, negated⟩ := both _ (compiled.afterReading lawful history) first second
    exact last.made.opposite last.sound known negated
  · obtain ⟨v, last, negated, known⟩ := both _ (compiled.afterReading lawful history) first second
    exact last.made.opposite last.sound known negated

/-- The tree of `! ls`. -/
def negatedListing : Node :=
  ⟨.negatedCommand, "! ls",
    [.leaf (.token "!") "!", .leaf .whitespace " ", .bareCommand "ls"], [], 0, 4⟩

set_option maxRecDepth 100000 in
/-- A negated command, which passes on the conditions of its command the other way round. -/
theorem Compiler.conditions_have_opposites_negated : 0 < 20 ∧ ∃ id t w,
    Compile.run .empty ((ofFuel .standard 20).compile negatedListing .none) = (.ok id, t) ∧
    Compile.run t ((ofFuel .standard 20).read id .condition) =
      (.ok (some ("((" ++ Dax.call "ls" ++ ").code != 0)")), w) ∧
    (Compile.run w ((ofFuel .standard 20).read id .negation)).1 =
      .ok (some ("((" ++ Dax.call "ls" ++ ").code == 0)")) ∧
    OppositeIfAny (some ("((" ++ Dax.call "ls" ++ ").code != 0)"))
      (some ("((" ++ Dax.call "ls" ++ ").code == 0)")) := by
  obtain ⟨id, t, ran, opposites⟩ :=
    conditions_have_opposites .standard (by decide : 0 < 20) .empty negatedListing .none
  have made : (Compile.run .empty ((ofFuel .standard 20).compile negatedListing .none)).1 =
      .ok 3 := by decide +kernel
  have condition : (Compile.run
      (Compile.run .empty ((ofFuel .standard 20).compile negatedListing .none)).2
      ((ofFuel .standard 20).read 3 .condition)).1 =
        .ok (some ("((" ++ Dax.call "ls" ++ ").code != 0)")) := by decide +kernel
  have negation : (Compile.run (Compile.run
      (Compile.run .empty ((ofFuel .standard 20).compile negatedListing .none)).2
      ((ofFuel .standard 20).read 3 .condition)).2 ((ofFuel .standard 20).read 3 .negation)).1 =
        .ok (some ("((" ++ Dax.call "ls" ++ ").code == 0)")) := by decide +kernel
  rw [ran] at made condition negation
  obtain rfl : id = 3 := Except.ok.inj made
  exact ⟨by decide, _, t, _, ran, Prod.ext condition rfl, negation,
    (opposites []).1 _ _ _ (Prod.ext condition rfl) negation⟩

end ShellToDeno
