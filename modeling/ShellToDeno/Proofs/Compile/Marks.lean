import ShellToDeno.Proofs.Compile.Compiled

/-!
# Marks of forms that are being made

A fault leaves the marks of all forms that were being made, and reading one of those forms later is
a fault too. With enough fuel this is no accident: where what makes a form asks only for other forms
of the same fragment, the mark of a form that failed stands on the mark of one that it asks for
(`Tracked`). A form is therefore read without a fault when what it asks for has been made.
-/
namespace ShellToDeno

open CompileState

/-- The query comes to ask for a form that is marked. -/
def Query.Blocked (s : CompileState) : Query → Prop
  | give _ | missing => False
  | ask id form next => (∃ g, form = some g ∧ s.slot? id g = some .cooking) ∨
    ∃ value, s.known? id form = some value ∧ (next value).Blocked s

variable {A : FragmentId → Prop} {s t : CompileState} {id : FragmentId} {form : Form} {q : Query}
  {given : Form → Bool}

theorem Query.Blocked.mono (step : Extends A s t) (blocked : q.Blocked s) : q.Blocked t := by
  induction q with
  | give | missing => exact blocked
  | ask id form next ih =>
    rcases blocked with ⟨g, same, marked⟩ | ⟨value, known, blocked⟩
    · exact .inl ⟨g, same, step.slots marked⟩
    · exact .inr ⟨value, step.known known, ih value blocked⟩

/-- A query whose answers are all known is not blocked. -/
theorem Query.not_blocked {value : Option Text} (found : q.eval s.known? = some value) :
    ¬q.Blocked s := by
  induction q with
  | give | missing => exact fun blocked => blocked
  | ask id form next ih =>
    obtain ⟨answer, known, found⟩ := Option.bind_eq_some_iff.1 found
    rintro (⟨g, rfl, marked⟩ | ⟨other, again, blocked⟩)
    · rw [known?_eq_some, marked] at known
      cases known
    · obtain rfl := Option.some.inj (known.symm.trans again)
      exact ih answer found blocked

namespace CompileState

/-- Which forms a fragment supplies. -/
def Supplies (s : CompileState) (id : FragmentId) (given : Form → Bool) : Prop :=
  ∀ form, (s.recipe? id form).isSome = given form

theorem Supplies.mono (supplies : Supplies s id given) (step : Extends A s t)
    (inside : id < s.fragments.size) : Supplies t id given :=
  fun form => step.recipe? inside form ▸ supplies form

/-- What makes the form asks for forms of the same fragment that come before it. -/
def AsksItself (s : CompileState) (given : Form → Bool) (id : FragmentId) (form : Form)
    (q : Query) :
    Prop :=
  s.query? id form = some q ∧ q.Asks (Form.Below given form id)

theorem AsksItself.congr (step : Extends A s t) (inside : id < s.fragments.size) :
    AsksItself t given id form q ↔ AsksItself s given id form q := by
  rw [AsksItself, AsksItself, step.query? inside]

theorem asksItself_derivation (supplies : Supplies s id given) (inside : id < s.fragments.size)
    (derived : s.recipe? id form = none) :
    AsksItself s given id form (form.derivation id given) := by
  have present := Array.getElem?_eq_getElem inside
  have same : (fun g => s.fragments[id].supplies (some g)) = given := by
    funext g
    rw [← supplies g]
    simp [recipe?, present, Fragment.supplies]
  have missing : s.fragments[id].recipe? (some form) = none := by
    simpa [recipe?, present] using derived
  refine ⟨?_, Form.derivation_asks given ?_⟩
  · simp [query?, present, Fragment.query?, missing, same]
  · rw [← supplies form, derived]
    rfl

theorem asksItself_text (inside : id < s.fragments.size) {text : Text}
    (supplied : s.recipe? id form = some (.text text)) :
    AsksItself s given id form (.give (some text)) := by
  have present := Array.getElem?_eq_getElem inside
  have here : s.fragments[id].recipe? (some form) = some (.text text) := by
    simpa [recipe?, present] using supplied
  exact ⟨by simp [query?, present, Fragment.query?, here, Recipe.query?], .give _⟩

/-- A step that ends well leaves no new mark. A fault may leave some; then what made their forms is
blocked, if it asked only for forms of the same fragment. -/
structure Marks {α : Type} (given : Form → Bool) (id : FragmentId) (s : CompileState)
    (result : Except Fault α × CompileState) : Prop where
  ok : ∀ a, result.1 = .ok a → ∀ g, result.2.slot? id g = some .cooking →
    s.slot? id g = some .cooking
  fault : ∀ g, result.2.slot? id g = some .cooking → s.slot? id g = some .cooking ∨
    ∀ q, AsksItself result.2 given id g q → q.Blocked result.2

theorem Marks.same {α : Type} {outcome : Except Fault α}
    (slots : ∀ g, t.slot? id g = some .cooking → s.slot? id g = some .cooking) :
    Marks given id s (outcome, t) :=
  ⟨fun _ _ => slots, fun g marked => .inl (slots g marked)⟩

/-- Every read of a form whose rank the fuel exceeds leaves such marks, and its own if it fails. -/
def ReadsMark (fuel : Nat) (c : Compiler) : Prop :=
  ∀ {A s id} (given : Form → Bool) (form : Form), Sound A s → Owns A s id → Supplies s id given →
    form.rank given < fuel → Marks given id s (Compile.run s (c.readAny id (some form))) ∧
      ∀ fault, (Compile.run s (c.readAny id (some form))).1 = .error fault →
        (Compile.run s (c.readAny id (some form))).2.slot? id form = some .cooking

end CompileState

section
variable {c : Compiler} {fuel : Nat} (lawful : Lawful c) (reads : ReadsMark fuel c)
include lawful reads

theorem Query.run_marks (asks : q.Asks fun j asked => j = id ∧ ∃ g,
    asked = some g ∧ g.rank given < fuel)
    (sound : Sound A s) (owned : Owns A s id) (supplies : Supplies s id given) :
    Marks given id s (Compile.run s (q.run c)) ∧
      ∀ fault, (Compile.run s (q.run c)).1 = .error fault →
        q.Blocked (Compile.run s (q.run c)).2 := by
  induction q generalizing s with
  | give value => exact ⟨.same fun _ marked => marked, by simp [run]⟩
  | missing => cases asks
  | ask j asked next ih =>
    cases asks with
    | ask here rest =>
      obtain ⟨rfl, g, rfl, less⟩ := here
      obtain ⟨marks, failed⟩ := reads given g sound owned supplies less
      have safe := lawful.readAny (some g) owned sound
      rw [run, Compile.run_bind]
      generalize Compile.run s (c.readAny j (some g)) = result at marks failed safe
      obtain ⟨outcome, t⟩ := result
      cases outcome with
      | error fault =>
        exact ⟨marks, fun _ _ => .inl ⟨g, rfl, failed _ rfl⟩⟩
      | ok value =>
        obtain ⟨_, later, step, known⟩ := safe
        have still : Owns A t j := step.owns owned
        obtain ⟨_, _, more, _⟩ := Query.run_safe lawful
          ((rest value).imp fun i asked here => (here.1 ▸ still : Owns A t i)) later
        obtain ⟨others, blocked⟩ := ih value (rest value) later still (supplies.mono step owned.2)
        refine ⟨⟨fun a ok g marked => marks.ok _ rfl g (others.ok a ok g marked),
          fun g marked => ?_⟩, fun fault fails => ?_⟩
        · exact (others.fault g marked).imp_left (marks.ok _ rfl g)
        · exact .inr ⟨value, more.known (known value rfl), blocked fault fails⟩

/-- What is asked of the fragment itself goes by `Query.run_marks`; a recipe that asks others works
on earlier fragments only. -/
theorem Fragment.making_marks {f : Fragment} (present : s.fragments[id]? = some f)
    (less : form.rank given ≤ fuel) (sound : Sound A s) (owned : Owns A s id)
    (supplies : Supplies s id given) :
    Marks given id s (Compile.run s (making c id f form)) ∧
      ∀ fault, (Compile.run s (making c id f form)).1 = .error fault →
        ∀ q, AsksItself s given id form q → q.Blocked (Compile.run s (making c id f form)).2 := by
  by_cases itself : ∃ q, AsksItself s given id form q
  · obtain ⟨q, asks, below⟩ := itself
    have found : f.query? s.labels id form = some q := by
      simpa [CompileState.query?, present] using asks
    have fewer : q.Asks fun j asked => j = id ∧ ∃ g, asked = some g ∧ g.rank given < fuel := by
      refine below.imp ?_
      rintro j asked ⟨same, g, here, lower⟩
      exact ⟨same, g, here, Nat.lt_of_lt_of_le lower less⟩
    obtain ⟨marks, blocked⟩ := Query.run_marks lawful reads fewer sound owned supplies
    rw [run_making present found]
    refine ⟨marks, fun fault fails other again => ?_⟩
    obtain rfl := Option.some.inj (asks.symm.trans again.1)
    exact blocked fault fails
  · have given : ∃ recipe, s.recipe? id form = some recipe := by
      cases found : s.recipe? id form with
      | some recipe => exact ⟨recipe, rfl⟩
      | none => exact absurd ⟨_, asksItself_derivation supplies owned.2 found⟩ itself
    obtain ⟨recipe, given⟩ := given
    have cooked : making c id f form = cook c recipe := by
      have here : f.recipe? (some form) = some recipe := by
        simpa [CompileState.recipe?, present] using given
      rw [making, here]
    obtain ⟨_, _, step, _⟩ := cook_justified lawful sound owned given (sound.before id)
    have slots (g : Form) : (Compile.run s (cook c recipe)).2.slot? id g = s.slot? id g :=
      congrArg (·.bind (·.slot? g)) (step.frame owned.not_before)
    rw [cooked]
    exact ⟨.same fun g marked => slots g ▸ marked, fun _ _ q asks => absurd ⟨q, asks⟩ itself⟩

theorem Fragment.make_marks (new : s.slot? id form = none) (less : form.rank given ≤ fuel)
    (sound : Sound A s) (owned : Owns A s id) (supplies : Supplies s id given) :
    Marks given id s (Compile.run s (make c id form)) ∧
      ∀ fault, (Compile.run s (make c id form)).1 = .error fault →
        (Compile.run s (make c id form)).2.slot? id form = some .cooking := by
  obtain ⟨f, present⟩ : ∃ f, s.fragments[id]? = some f := ⟨_, Array.getElem?_eq_getElem owned.2⟩
  have marking : Extends A s (s.setSlot id form .cooking) := .setSlot_cooking owned.1 new
  have marked : (s.setSlot id form .cooking).fragments[id]? = some (f.setSlot form .cooking) := by
    simp [getElem?_setSlot, present]
  have here := marking.owns owned
  have soundNext : Sound A (s.setSlot id form .cooking) := sound.setSlot_cooking new
  obtain ⟨_, _, step, _⟩ := making_justified lawful here (f := f) (by
    rw [recipe?_setSlot]
    simp [CompileState.recipe?, present]) soundNext
  obtain ⟨marks, blocked⟩ := making_marks lawful reads marked less soundNext here
    (supplies.mono marking owned.2)
  have same : making c id (f.setSlot form .cooking) form = making c id f form := rfl
  rw [same] at marks blocked
  rw [run_make present]
  generalize Compile.run (s.setSlot id form .cooking) (making c id f form) = result
    at step marks blocked ⊢
  obtain ⟨outcome, t⟩ := result
  have cooking : t.slot? id form = some .cooking :=
    step.slots (CompileState.slot?_setSlot_self present)
  have older {g : Form} (found : (s.setSlot id form .cooking).slot? id g = some .cooking)
      (other : g ≠ form) : s.slot? id g = some .cooking := by
    rwa [CompileState.slot?_setSlot_of_ne fun both => other both.2] at found
  cases outcome with
  | error fault =>
    refine ⟨⟨fun a ok => by simp at ok, fun g found => ?_⟩, fun _ _ => cooking⟩
    by_cases equal : g = form
    · subst equal
      exact .inr fun q asks => blocked fault rfl q ((AsksItself.congr step here.2).1 asks)
    · exact (marks.fault g found).imp_left fun before => older before equal
  | ok value =>
    obtain ⟨g, kept, _⟩ := step.present marked
    simp only [kept]
    refine ⟨.same fun g found => ?_, by simp⟩
    have other : g ≠ form := by
      rintro rfl
      rw [CompileState.slot?_setSlot_self kept] at found
      cases found
    rw [CompileState.slot?_setSlot_of_ne fun both => other both.2] at found
    exact older (marks.ok value rfl g found) other

end

/-- Reads leave marks as `ReadsMark` says, however much fuel there is. -/
theorem Compiler.readsMark (registry : Registry) (fuel : Nat) :
    ReadsMark fuel (ofFuel registry fuel) := by
  induction fuel with
  | zero => exact fun _ _ _ _ _ less => absurd less (Nat.not_lt_zero _)
  | succ fuel ih =>
    intro A s id given form sound owned supplies less
    obtain ⟨f, present⟩ : ∃ f, s.fragments[id]? = some f := ⟨_, Array.getElem?_eq_getElem owned.2⟩
    change Marks given id s (Compile.run s (Fragment.read (ofFuel registry fuel) id (some form))) ∧
      ∀ fault, (Compile.run s (Fragment.read (ofFuel registry fuel) id (some form))).1 =
      .error fault →
        (Compile.run s (Fragment.read (ofFuel registry fuel) id (some form))).2.slot? id form =
          some .cooking
    cases found : s.slot? id form with
    | some slot =>
      cases slot with
      | known value =>
        rw [Fragment.run_read_known found]
        exact ⟨.same fun _ marked => marked, by simp⟩
      | cooking =>
        rw [Fragment.run_read_cooking found]
        exact ⟨.same fun _ marked => marked, fun _ _ => found⟩
    | none =>
      rw [Fragment.run_read_new present found]
      exact Fragment.make_marks (lawful_ofFuel registry fuel) ih found
        (Nat.le_of_lt_succ less) sound
        owned supplies

namespace CompileState

/-- A compiled fragment whose marks, if faults have left any, are all accounted for: what made such
a form is blocked, unless it asked others. -/
structure Tracked (A : FragmentId → Prop) (given : Form → Bool) (s : CompileState)
    (id : FragmentId) : Prop extends Compiled A s id where
  supplies : Supplies s id given
  blocked : ∀ g, s.slot? id g = some .cooking → ∀ q, AsksItself s given id g q → q.Blocked s

theorem Compiled.tracked (compiled : Compiled A s id) (unread : ∀ form, s.slot? id form = none) :
    Tracked A (fun form => (s.recipe? id form).isSome) s id :=
  ⟨compiled, fun _ => rfl, fun g marked => by simp [unread] at marked⟩

theorem rank_le (given : Form → Bool) (form : Form) : form.rank given ≤ 13 := by
  cases form <;> simp only [Form.rank, Form.depth] <;> split <;> decide

namespace Tracked
variable (tracked : Tracked A given s id)
include tracked

/-- Work on other fragments leaves it as it is. -/
theorem frame (step : Extends A s t) (sound : Sound A t)
    (same : t.fragments[id]? = s.fragments[id]?) : Tracked A given t id := by
  have inside := tracked.made.owns.2
  refine ⟨⟨sound, step.made tracked.made⟩, tracked.supplies.mono step inside,
    fun g marked q asks => ?_⟩
  rw [slot?, same] at marked
  exact (tracked.blocked g marked q ((AsksItself.congr step inside).1 asks)).mono step

/-- A form that is not blocked has no mark. -/
theorem unmarked (asks : AsksItself s given id form q) (free : ¬q.Blocked s) :
    s.slot? id form ≠ some .cooking :=
  fun marked => free (tracked.blocked form marked q asks)

section
variable {registry : Registry} {fuel : Nat} (enough : 13 < fuel)
include enough

theorem read (form : Form) :
    Tracked A given (Compile.run s ((Compiler.ofFuel registry fuel).read id form)).2 id := by
  obtain ⟨compiled, step, _⟩ := tracked.toCompiled.read (Compiler.lawful_ofFuel registry fuel) form
  obtain ⟨marks, _⟩ := Compiler.readsMark registry fuel given form tracked.sound tracked.made.owns
    tracked.supplies (Nat.lt_of_le_of_lt (rank_le given form) enough)
  have inside := tracked.made.owns.2
  refine ⟨compiled, tracked.supplies.mono step inside, fun g marked q asks => ?_⟩
  rcases marks.fault g marked with before | blocked
  · exact (tracked.blocked g before q ((AsksItself.congr step inside).1 asks)).mono step
  · exact blocked q asks

theorem afterReading (forms : List Form) :
    Tracked A given (s.afterReading (Compiler.ofFuel registry fuel) id forms) id := by
  induction forms generalizing s with
  | nil => exact tracked
  | cons form forms ih =>
    rw [afterReading_cons]
    exact ih (tracked.read enough form)

/-- A form is read without a fault if nothing can block what makes it. -/
theorem read_ok (asks : AsksItself s given id form q)
    (free : ∀ t, Extends A s t → Tracked A given t id → ¬q.Blocked t) :
    ∃ value t, Compile.run s ((Compiler.ofFuel registry fuel).read id form) = (.ok value, t) ∧
      Tracked A given t id ∧ Extends A s t ∧ t.known? id (some form) = some value := by
  have later : Tracked A given
      (Compile.run s ((Compiler.ofFuel registry fuel).read id form)).2 id :=
      tracked.read enough form
  obtain ⟨_, step, known⟩ := tracked.toCompiled.read (Compiler.lawful_ofFuel registry fuel) form
  obtain ⟨_, failed⟩ := Compiler.readsMark registry fuel given form tracked.sound tracked.made.owns
    tracked.supplies (Nat.lt_of_le_of_lt (rank_le given form) enough)
  change ∀ fault, (Compile.run s ((Compiler.ofFuel registry fuel).read id form)).1 = .error fault →
    (Compile.run s ((Compiler.ofFuel registry fuel).read id form)).2.slot? id form =
      some .cooking at failed
  generalize Compile.run s ((Compiler.ofFuel registry fuel).read id form) = result
    at later step known failed ⊢
  obtain ⟨outcome, t⟩ := result
  cases outcome with
  | ok value => exact ⟨value, t, rfl, later, step, known value rfl⟩
  | error fault =>
    have asked := (AsksItself.congr step tracked.made.owns.2).2 asks
    exact absurd (failed fault rfl) (later.unmarked asked (free t step later))

end

end Tracked

end CompileState

end ShellToDeno
