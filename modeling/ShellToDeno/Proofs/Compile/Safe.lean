import ShellToDeno.Proofs.Compile.Steps

/-!
# Steps that keep the store sound

`Safe A s x Q` says that the step `x`, run in `s`, extends the store by work on the fragments in `A`
and keeps it sound, whether or not it ends in a fault, and that a result satisfies `Q` in the store
after it. The ledger of such steps says that stores are sound and that fragments are made in one of
the known shapes.
-/
namespace ShellToDeno

open CompileState

variable {A : FragmentId → Prop} {s : CompileState}

/-- What is known of a fragment right after it was added. -/
structure CompileState.Added (A : FragmentId → Prop) (fields : Fields) (id : FragmentId)
    (s : CompileState) : Prop where
  owned : Owns A s id
  recipes : s.recipe? id = fields.look
  unread : ∀ form, s.slot? id form = none

theorem CompileState.Added.push (sound : Sound A s) (fields : Fields) (values : Option (List Text))
    (isFallback : Bool) :
    Added A fields s.fragments.size
      (s.push { Fragment.ofFields fields with values, isFallback }) := by
  refine ⟨⟨sound.fresh (Nat.le_refl _), by simp [CompileState.push]⟩, funext fun form => ?_,
    fun form => ?_⟩
  · rw [recipe?_push_self, ← Fragment.recipe?_ofFields]
    rfl
  · rw [slot?_push rfl]
    simp [slot?]

/-- A fragment of a known shape is made as soon as it is added. -/
theorem CompileState.Added.made {t : CompileState} {fields : Fields} {id : FragmentId}
    (added : Added A fields id t) (step : Extends A s t)
    (shape : Shape (Made A s) (fun id form value => s.known? id form = some value) fields.look) :
    Made A t id := by
  have owned := added.owned
  rw [← added.recipes] at shape
  cases shape with
  | plain ladder decides => exact .plain owned ladder decides
  | same ladder condition negation here =>
    exact .same owned ladder condition negation (step.made here)
  | swapped ladder condition negation here =>
    exact .swapped owned ladder condition negation (step.made here)
  | piped decides pure redirected chained plain supplied several segments front last assembled =>
    exact .piped owned decides pure redirected chained plain supplied several
      (fun segment listed => step.made (segments segment listed)) (step.knownAll front)
      (step.known last) assembled

/-- The ledger of sound stores. -/
def Ledger.store (A : FragmentId → Prop) : Ledger where
  Fine := Sound A
  Leads := Extends A
  Low s _ id := Owns A s id
  Made := CompileState.Made A
  Unread s id := ∀ form, s.slot? id form = none
  Known s id form value := s.known? id form = some value
  Fits _ _ := True
  strict := False
  refl := Extends.refl A
  trans := Extends.trans
  low := Extends.owns
  high _ owned := owned
  made := Extends.made
  known step found := step.known found
  child _ _ := trivial
  leaf _ _ := trivial
  neat _ strict := strict.elim
  notes _ strict := strict.elim
  values _ strict := strict.elim
  side _ := ⟨_, Nat.le_refl _, fun _ _ => trivial, fun owned => owned⟩
  quiet fragments labels _ _ _ sound := ⟨sound.of_eq fragments labels, .of_eq fragments labels⟩
  function {s} name sound := by
    have entering : Extends A s (s.entered name) := .of_eq rfl rfl
    exact ⟨sound.of_eq rfl rfl, fun step later =>
      ⟨later.of_eq rfl rfl, (entering.trans step).trans (.of_eq rfl rfl)⟩⟩
  push {s _ fields} values isFallback sound rests _ _ := by
    have inside {form : Form} {recipe : Recipe}
        (given : (Fragment.ofFields fields).recipe? (some form) = some recipe) :
        recipe.Within (Owns A s) := by
      obtain ⟨entry, listed, same⟩ := List.mem_map.1 (Fragment.mem_of_recipe? given)
      obtain ⟨_, rfl⟩ := Prod.mk.inj same
      exact (rests entry listed).1
    have step : Extends A s (s.push { Fragment.ofFields fields with values, isFallback }) :=
      .push sound rfl
    have added := Added.push sound fields values isFallback
    exact ⟨sound.push rfl inside, step, added.owned, added.unread, added.made step⟩

/-- A step that keeps the store sound, with what it gives. -/
abbrev Safe {α : Type} (A : FragmentId → Prop) (s : CompileState) (x : Compile α)
    (Q : α → CompileState → Prop) : Prop :=
  Agree (Ledger.store A) s x x Q

/-- A step of which only the effect on the store matters. -/
abbrev Keeps {α : Type} (A : FragmentId → Prop) (s : CompileState) (x : Compile α) : Prop :=
  Safe A s x fun _ _ => True

/-- A fragment as the compiler returns it: nothing of it has been read. -/
def Returned (A : FragmentId → Prop) (id : FragmentId) (s : CompileState) : Prop :=
  Made A s id ∧ ∀ form, s.slot? id form = none

end ShellToDeno
