import ShellToDeno.Proofs.Compile.Blocks
import ShellToDeno.Proofs.Compile.Safe
import ShellToDeno.Proofs.Fragment.Derivation

/-!
# Reading keeps the store sound

Reading forms keeps the store sound, if the parts of the compiler that it calls do. A form that is
made for the first time is marked before its recipe or its derivation is followed, and what comes of
that is kept and justified. With it a compiler of any fuel keeps the store sound, returns fragments
of the known shapes and reads what it says.
-/
namespace ShellToDeno

open CompileState Compile

/-- What the parts of a compiler owe each other. -/
structure Lawful (c : Compiler) : Prop where
  compile : ∀ {A s} n context, Safe A s (c.compile n context) (Returned A)
  readAny : ∀ {A s id} form, Owns A s id →
    Safe A s (c.readAny id form) fun value t => t.known? id form = some value

variable {c : Compiler} {A : FragmentId → Prop} {s : CompileState} {id : FragmentId}

namespace Lawful
variable (lawful : Lawful c)
include lawful

theorem read (form : Form) (owned : Owns A s id) :
    Safe A s (c.read id form) fun value t => t.known? id (some form) = some value :=
  lawful.readAny (some form) owned

theorem reads (level : Nat) : ReadsAlike (Ledger.store A) level c c :=
  ⟨fun form owned => (lawful.readAny form owned).imp fun _ _ _ known =>
    ⟨known, fun _ _ strict => strict.elim⟩⟩

theorem serves (depth : Nat) : Serves (Ledger.store A) depth c c :=
  ⟨rfl, fun strict => strict.elim, fun context _ =>
    (lawful.compile _ context).imp fun _ _ _ returned =>
    ⟨returned.1.owns, returned.1, returned.2⟩, lawful.reads _⟩

end Lawful

/-- Work on the fragments before one of them is work on all of them. -/
theorem Safe.of_before {α : Type} {x : Compile α} {Q : α → CompileState → Prop}
    (safe : Safe (Before A s id) s x Q) : Safe A s x Q := by
  intro sound
  obtain ⟨same, later, step, result⟩ := safe (sound.before id)
  exact ⟨same, sound.of_before later step, .of_before sound step, result⟩

theorem Query.run_safe (lawful : Lawful c) {q : Query} (asks : q.Asks fun id _ => Owns A s id) :
    Safe A s (q.run c) fun value t => q.eval t.known? = some value := by
  induction q generalizing s with
  | give value => exact .pure rfl
  | missing => exact .fault _
  | ask id form next ih =>
    cases asks with
    | ask here rest =>
      refine (lawful.readAny form here).bind fun value t step found => ?_
      refine (ih value ((rest value).imp fun _ _ => step.owns)).imp
        fun answer u more evaluated => ?_
      simp [eval, more.known found, evaluated]

theorem Query.asks_each {P : FragmentId → Prop} (form : Form) (finish : List Text → Text)
    {ids : List FragmentId} (here : ∀ id ∈ ids, P id) :
    (each form finish ids).Asks fun id _ => P id := by
  induction ids generalizing finish with
  | nil => exact .give _
  | cons id ids ih =>
    refine .ask (here id (by simp)) fun value => ?_
    cases value with
    | none => exact .give _
    | some => exact ih _ fun id member => here id (by simp [member])

theorem Recipe.query?_asks {labels : Array FragmentId} {P : FragmentId → Prop} {recipe : Recipe}
    {q : Query} (within : recipe.Within P) (asks : recipe.query? labels = some q) :
    q.Asks fun id _ => P id := by
  cases recipe <;> simp only [query?, Option.some.injEq, reduceCtorEq] at asks <;> subst asks
  case labelled => exact within.elim
  case piped => exact Query.asks_each _ _ within
  all_goals first
    | exact .give _
    | exact .ask within fun _ => .give _

theorem Fragment.cook_keeps (lawful : Lawful c) {recipe : Recipe}
    (within : recipe.Within (Owns A s)) : Keeps A s (cook c recipe) :=
  (cook_agrees (lawful.reads 5) (fun _ => lawful.serves _)
    ⟨⟨within, fun _ _ => ⟨0, Nat.le_refl _, fun _ _ => trivial⟩⟩, fun strict => strict.elim⟩).agrees

/-- What a recipe has given, in the store after it was followed. -/
structure Recipe.Gave (recipe : Recipe) (value : Option Text) (s : CompileState) : Prop where
  asked : ∀ {q}, recipe.query? s.labels = some q → q.eval s.known? = some value
  checked : ∀ {operand negated}, recipe = .commandCheck operand negated →
    value = some ((if negated then "!" else "") ++ "hasCommand(" ++ operand ++ ")")

theorem Fragment.cook_gave (lawful : Lawful c) {recipe : Recipe}
    (within : recipe.Within (Owns A s)) :
    Safe A s (cook c recipe) recipe.Gave := by
  cases asks : recipe.query? s.labels with
  | some q =>
    have answered := Query.run_safe lawful (Recipe.query?_asks within asks)
    refine .of_run (run_cook asks) (run_cook asks) (answered.imp
      fun value t step evaluated => ⟨fun found => ?_, ?_⟩)
    · rw [step.labels, asks] at found
      exact Option.some.inj found ▸ evaluated
    · rintro _ _ rfl
      cases asks
  | none =>
    have unasked {t : CompileState} (step : Extends A s t) {q : Query}
        (found : recipe.query? t.labels = some q) {value : Option Text} :
        q.eval t.known? = some value := by
      rw [step.labels, asks] at found
      cases found
    by_cases check : ∃ operand negated, recipe = .commandCheck operand negated
    · obtain ⟨operand, negated, rfl⟩ := check
      refine (use_notes _).bind fun _ t _ _ => .pure ⟨fun found => (nomatch found), ?_⟩
      rintro _ _ ⟨⟩
      rfl
    · exact (cook_keeps lawful within).imp fun value t step _ =>
        ⟨fun found => unasked step found, fun same => (check ⟨_, _, same⟩).elim⟩

namespace Fragment
variable (lawful : Lawful c) {f : Fragment} {form : Form}
include lawful

/-- A recipe works on fragments before its own only. -/
theorem cook_justified {recipe : Recipe} (sound : Sound A s) (owned : Owns A s id)
    (given : s.recipe? id form = some recipe) :
    Safe (Before A s id) s (cook c recipe) fun value t => Justified t id form value := by
  have within := (sound.refers owned.1 given).imp (Q := Owns (Before A s id) s)
    fun _ earlier => ⟨.inl earlier, Nat.lt_trans earlier.2 owned.2⟩
  refine (cook_gave lawful within).imp fun value t step gave =>
    ⟨fun asks => gave.asked ?_, fun check => ?_⟩
  · obtain ⟨f, present, recipe⟩ := Option.bind_eq_some_iff.1 given
    rwa [step.query? owned.2, CompileState.query?, present, Option.bind_some, query?, recipe,
      ← step.labels] at asks
  · rw [step.recipe? owned.2, given] at check
    exact gave.checked (Option.some.inj check)

theorem derive_justified (owned : Owns A s id) (derived : s.recipe? id form = none) :
    Safe A s (derive c id form) fun value t => Justified t id form value := by
  obtain ⟨f, present⟩ : ∃ f, s.fragments[id]? = some f := ⟨_, Array.getElem?_eq_getElem owned.2⟩
  have recipe : f.recipe? (some form) = none := by
    simpa [CompileState.recipe?, present] using derived
  have unsupplied : f.supplies (some form) = false := by simp [supplies, recipe]
  have asks : (form.derivation id fun g => f.supplies (some g)).Asks fun j _ => Owns A s j :=
    (Form.derivation_asks (fun g => f.supplies (some g)) unsupplied).imp fun j asked below =>
    below.1 ▸ owned
  refine (Agree.of_run (run_derive present form) (run_derive present form)
    (Query.run_safe lawful asks)).imp fun value t step evaluated =>
    ⟨fun asks => ?_, fun check => ?_⟩
  · rw [step.query? owned.2, CompileState.query?, present, Option.bind_some, query?, recipe] at asks
    exact Option.some.inj asks ▸ evaluated
  · rw [step.recipe? owned.2, derived] at check
    cases check

theorem making_justified (owned : Owns A s id) (same : s.recipe? id form = f.recipe? (some form)) :
    Safe A s (making c id f form) fun value t => Justified t id form value := by
  intro sound
  rw [making]
  cases given : f.recipe? (some form) with
  | some recipe =>
    exact (cook_justified lawful sound owned (same.trans given)).of_before sound
  | none => exact derive_justified lawful owned (same.trans given) sound

theorem make_known (owned : Owns A s id) (new : s.slot? id form = none) :
    Safe A s (make c id form) fun value t => t.known? id (some form) = some value := by
  intro sound
  obtain ⟨f, present⟩ : ∃ f, s.fragments[id]? = some f := ⟨_, Array.getElem?_eq_getElem owned.2⟩
  have marking : Extends A s (s.setSlot id form .cooking) := .setSlot_cooking owned.1 new
  have marked : (s.setSlot id form .cooking).fragments[id]? = some (f.setSlot form .cooking) := by
    simp [getElem?_setSlot, present]
  have safe : Safe A (s.setSlot id form .cooking) (making c id f form)
      fun value t => Justified t id form value :=
    making_justified lawful (marking.owns owned) (by
      rw [recipe?_setSlot]
      simp [CompileState.recipe?, present])
  have made := safe (sound.setSlot_cooking new)
  rw [run_make present]
  generalize Compile.run (s.setSlot id form .cooking) (making c id f form) = outcome at made ⊢
  obtain ⟨outcome, t⟩ := outcome
  obtain ⟨_, later, step, justified⟩ := made
  cases outcome with
  | error => exact ⟨rfl, later, marking.trans step, by simp⟩
  | ok value =>
    obtain ⟨g, kept, _⟩ := step.present marked
    have cooking : t.slot? id form = some .cooking :=
      step.slots (CompileState.slot?_setSlot_self present)
    refine ⟨rfl, ?_⟩
    simp only [kept]
    refine ⟨later.setSlot_known cooking (justified value rfl),
      .setSlot_known owned.1 new step value, ?_⟩
    rintro _ ⟨⟩
    exact known?_eq_some.2 (CompileState.slot?_setSlot_self kept)

theorem read_known (form : Option Form) (owned : Owns A s id) :
    Safe A s (read c id form) fun value t => t.known? id form = some value := by
  cases form with
  | none => exact .fault _
  | some form =>
    obtain ⟨f, present⟩ : ∃ f, s.fragments[id]? = some f := ⟨_, Array.getElem?_eq_getElem owned.2⟩
    cases found : s.slot? id form with
    | none =>
      exact .of_run (run_read_new present found) (run_read_new present found)
        (make_known lawful owned found)
    | some slot =>
      cases slot with
      | known value =>
        exact .of_run (run_read_known found) (run_read_known found)
          (.pure (a := value) (known?_eq_some.2 found))
      | cooking => exact .of_run (run_read_cooking found) (run_read_cooking found) (.fault _)

end Fragment

theorem Compiler.lawful_ofFuel (registry : Registry) (fuel : Nat) :
    Lawful (ofFuel registry fuel) := by
  induction fuel with
  | zero => exact ⟨fun _ _ => .fault _, fun _ _ => .fault _⟩
  | succ fuel ih =>
    refine ⟨fun {A s} n context => ?_, Fragment.read_known ih⟩
    have settled : Settle (Ledger.store A) 0 s (node (ofFuel registry fuel) n context)
        (node (ofFuel registry fuel) n context) :=
      settle_node (fun depth _ => ih.serves depth) (fun strict => strict.elim) (fun _ _ => trivial)
        (fun _ _ _ => trivial) context
    exact settled.imp fun _ _ _ returned => ⟨returned.made, returned.unread⟩

end ShellToDeno
