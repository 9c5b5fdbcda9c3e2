import ShellToDeno.Proofs.Compile.Reading
import ShellToDeno.Proofs.Fragment.History

/-!
# Compiled fragments

Compiling a node gives a fragment in every store, whatever is in the store already: the fragments
that come of it are new, and what is known of new fragments is vacuous before. Whatever is read of
such a fragment afterwards, it stays as it was made.
-/
namespace ShellToDeno

variable {A : FragmentId → Prop} {s t : CompileState} {id : FragmentId} {c : Compiler}

namespace CompileState

/-- A fragment that was compiled, in a store where this can be relied on. -/
structure Compiled (A : FragmentId → Prop) (s : CompileState) (id : FragmentId) : Prop where
  sound : Sound A s
  made : Made A s id

theorem Sound.new (s : CompileState) : Sound (s.fragments.size ≤ ·) s := by
  refine ⟨id, fun allowed given => ?_, fun allowed known => ?_⟩
  · obtain ⟨f, present, _⟩ := Option.bind_eq_some_iff.1 given
    exact absurd (Array.getElem?_eq_some_iff.1 present).1 (Nat.not_lt_of_le allowed)
  · obtain ⟨f, present, _⟩ := Option.bind_eq_some_iff.1 (known?_eq_some.1 known)
    exact absurd (Array.getElem?_eq_some_iff.1 present).1 (Nat.not_lt_of_le allowed)

theorem Compiled.read (compiled : Compiled A s id) (lawful : Lawful c) (form : Form) :
    Compiled A (Compile.run s (c.read id form)).2 id ∧
    Extends A s (Compile.run s (c.read id form)).2 ∧
      ∀ value, (Compile.run s (c.read id form)).1 = .ok value →
        (Compile.run s (c.read id form)).2.known? id (some form) = some value := by
  obtain ⟨_, sound, step, known⟩ := lawful.read form compiled.made.owns compiled.sound
  exact ⟨⟨sound, step.made compiled.made⟩, step, known⟩

/-- The store after some forms of a fragment were read. -/
def afterReading (c : Compiler) (s : CompileState) (id : FragmentId) (forms : List Form) :
    CompileState :=
  s.afterAll c (forms.map fun form => .get id (some form))

theorem afterReading_cons (form : Form) (forms : List Form) :
    s.afterReading c id (form :: forms) =
      (Compile.run s (c.read id form)).2.afterReading c id forms := rfl

theorem Compiled.afterReading (compiled : Compiled A s id) (lawful : Lawful c) (forms : List Form) :
    Compiled A (s.afterReading c id forms) id := by
  induction forms generalizing s with
  | nil => exact compiled
  | cons form forms ih =>
    rw [afterReading_cons]
    exact ih (compiled.read lawful form).1

end CompileState

open CompileState

/-- A node is compiled in any store, and nothing of its fragment has been read then. -/
theorem Compiler.exists_compile (registry : Registry) {fuel : Nat} (positive : 0 < fuel)
    (s : CompileState) (n : Node) (context : Context) :
    ∃ id t, Compile.run s ((ofFuel registry fuel).compile n context) = (.ok id, t) ∧
      Compiled (s.fragments.size ≤ ·) t id ∧ ∀ form, t.slot? id form = none := by
  have safe := (lawful_ofFuel registry fuel).compile n context (Sound.new s)
  obtain ⟨fuel, rfl⟩ := Nat.exists_eq_add_of_lt positive
  obtain ⟨id, ok⟩ := Compile.run_node (c := ofFuel registry (0 + fuel)) (s := s) n context
  change (Compile.run s ((ofFuel registry (0 + fuel + 1)).compile n context)).1 = .ok id at ok
  generalize Compile.run s ((ofFuel registry (0 + fuel + 1)).compile n context) =
    result at safe ok ⊢
  obtain ⟨outcome, t⟩ := result
  subst ok
  obtain ⟨_, sound, _, returned⟩ := safe
  exact ⟨id, t, rfl, ⟨sound, (returned id rfl).1⟩, (returned id rfl).2⟩

/-- The tree of a command without arguments. -/
def Node.bareCommand (name : Text) : Node :=
  let stop := (name.length : Int)
  ⟨.command, name, [⟨.commandName, name, [.leaf .word name], [], 0, stop⟩], [], 0, stop⟩

end ShellToDeno
