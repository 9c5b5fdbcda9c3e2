import ShellToDeno.Compile.Test
import ShellToDeno.Proofs.Fragment.Query

/-!
# What the compiler keeps true of its store

`A` says which fragments a step may work on. `Sound A s` says that these refer to earlier ones among
them only, and that every form of them that has been made is what its recipe or its derivation
gives. `Extends A s t` says that `t` comes from `s` by such work: fragments are added, forms are
made, and nothing else changes.
-/
namespace ShellToDeno

namespace CompileState

/-- The value of a form that has been made. -/
def known? (s : CompileState) (id : FragmentId) (form : Option Form) : Option (Option Text) :=
  form.bind fun form => match s.slot? id form with
    | some (.known value) => some value
    | _ => none

def recipe? (s : CompileState) (id : FragmentId) (form : Form) : Option Recipe :=
  s.fragments[id]?.bind (·.recipe? (some form))

variable {s : CompileState} {id : FragmentId} {form : Form} {value : Option Text}

theorem known?_eq_some :
    s.known? id (some form) = some value ↔ s.slot? id form = some (.known value) := by
  simp only [known?, Option.bind_some]
  split
  · next found => simp [found]
  · next other => simpa using fun found => other value found

end CompileState

/-- The fragments that a recipe reads satisfy `P`. A label may name any fragment. -/
def Recipe.Within (P : FragmentId → Prop) : Recipe → Prop
  | text _ | absent | commandLine _ | commandCheck _ _ => True
  | labelled _ _ => False
  | same id _ | negated id | captured id | capturedArgument id | capturedInnards id
  | joinedCondition _ _ id | bracketed id | argumentOf id => P id
  | piped ids | joined _ ids | joinedArgument ids | joinedQuoted ids | joinedTemplate ids
  | argumentsOf ids | arrayOf ids => ∀ id ∈ ids, P id
  | group members _ _ _ => ∀ member ∈ members, P member.2

theorem Recipe.Within.imp {P Q : FragmentId → Prop} {recipe : Recipe} (within : recipe.Within P)
    (implies : ∀ id, P id → Q id) : recipe.Within Q := by
  cases recipe <;> first
    | exact trivial
    | exact within
    | exact implies _ within
    | exact fun id member => implies _ (within id member)

namespace CompileState

variable {A B : FragmentId → Prop} {s t u : CompileState} {id : FragmentId} {form : Form}
  {value : Option Text}

/-- A fragment that may be worked on. -/
def Owns (A : FragmentId → Prop) (s : CompileState) (id : FragmentId) : Prop :=
  A id ∧ id < s.fragments.size

/-- What a form of a fragment was made to be, as its recipe or its derivation demands. -/
structure Justified (s : CompileState) (id : FragmentId) (form : Form) (value : Option Text) :
    Prop where
  asked : ∀ {q}, s.query? id form = some q → q.eval s.known? = some value
  checked : ∀ {operand negated}, s.recipe? id form = some (.commandCheck operand negated) →
    value = some ((if negated then "!" else "") ++ "hasCommand(" ++ operand ++ ")")

structure Sound (A : FragmentId → Prop) (s : CompileState) : Prop where
  fresh : ∀ {id}, s.fragments.size ≤ id → A id
  refers : ∀ {id form recipe}, A id → s.recipe? id form = some recipe →
    recipe.Within fun earlier => A earlier ∧ earlier < id
  justified : ∀ {id form value}, A id → s.known? id (some form) = some value →
    Justified s id form value

structure Extends (A : FragmentId → Prop) (s t : CompileState) : Prop where
  size : s.fragments.size ≤ t.fragments.size
  labels : t.labels = s.labels
  supplied : ∀ {id : FragmentId}, id < s.fragments.size →
    t.fragments[id]?.map Fragment.supplied = s.fragments[id]?.map Fragment.supplied
  slots : ∀ {id form slot}, s.slot? id form = some slot → t.slot? id form = some slot
  frame : ∀ {id : FragmentId}, ¬A id → t.fragments[id]? = s.fragments[id]?

namespace Extends

theorem refl (A : FragmentId → Prop) (s : CompileState) : Extends A s s :=
  ⟨Nat.le_refl _, rfl, fun _ => rfl, fun found => found, fun _ => rfl⟩

theorem trans (first : Extends A s t) (second : Extends A t u) : Extends A s u :=
  ⟨Nat.le_trans first.size second.size, second.labels.trans first.labels,
    fun inside => (second.supplied (Nat.lt_of_lt_of_le inside first.size)).trans
      (first.supplied inside),
    fun found => second.slots (first.slots found),
    fun outside => (second.frame outside).trans (first.frame outside)⟩

theorem owns (step : Extends A s t) (owned : Owns A s id) : Owns A t id :=
  ⟨owned.1, Nat.lt_of_lt_of_le owned.2 step.size⟩

theorem known (step : Extends A s t) {form : Option Form} (found : s.known? id form = some value) :
    t.known? id form = some value := by
  cases form with
  | none => exact found
  | some form => exact known?_eq_some.2 (step.slots (known?_eq_some.1 found))

theorem present (step : Extends A s t) {f : Fragment} (found : s.fragments[id]? = some f) :
    ∃ g, t.fragments[id]? = some g ∧ g.supplied = f.supplied := by
  have supplied := step.supplied (Array.getElem?_eq_some_iff.1 found).1
  rw [found] at supplied
  exact Option.map_eq_some_iff.1 supplied

theorem recipe? (step : Extends A s t) (inside : id < s.fragments.size) (form : Form) :
    t.recipe? id form = s.recipe? id form := by
  have found := Array.getElem?_eq_getElem inside
  obtain ⟨g, later, same⟩ := step.present found
  simp [CompileState.recipe?, found, later, Fragment.recipe?, same]

theorem query? (step : Extends A s t) (inside : id < s.fragments.size) (form : Form) :
    t.query? id form = s.query? id form := by
  have found := Array.getElem?_eq_getElem inside
  obtain ⟨g, later, same⟩ := step.present found
  simp [CompileState.query?, found, later, Fragment.query?, Fragment.recipe?, Fragment.supplies,
    same, step.labels]

theorem justified (step : Extends A s t) (inside : id < s.fragments.size)
    (justified : Justified s id form value) : Justified t id form value := by
  refine ⟨fun asks => ?_, fun check => justified.checked (step.recipe? inside form ▸ check)⟩
  exact Query.eval_mono (fun _ _ _ => step.known) (justified.asked (step.query? inside form ▸ asks))

end Extends

theorem Extends.of_eq (fragments : t.fragments = s.fragments) (labels : t.labels = s.labels) :
    Extends A s t := by
  refine ⟨Nat.le_of_eq (by rw [fragments]), labels, fun _ => by rw [fragments], ?_, ?_⟩
  · intro id form slot found
    simpa [slot?, fragments] using found
  · intro id _
    rw [fragments]

theorem Sound.of_eq (sound : Sound A s) (fragments : t.fragments = s.fragments)
    (labels : t.labels = s.labels) : Sound A t := by
  have slots : t.slot? = s.slot? := by
    funext id form
    simp [slot?, fragments]
  have known : t.known? = s.known? := by
    funext id form
    simp [known?, slots]
  have recipes : t.recipe? = s.recipe? := by
    funext id form
    simp [recipe?, fragments]
  have queries : t.query? = s.query? := by
    funext id form
    simp [query?, fragments, labels]
  refine ⟨fun outside => sound.fresh (fragments ▸ outside), fun allowed given => ?_,
    fun allowed found => ?_⟩
  · exact sound.refers allowed (recipes ▸ given)
  · have justified := sound.justified allowed (known ▸ found)
    exact ⟨fun asks => known ▸ justified.asked (queries ▸ asks),
      fun check => justified.checked (recipes ▸ check)⟩

/-! Work on fewer fragments: those before `id`, and those still to come. -/

def Before (A : FragmentId → Prop) (s : CompileState) (id j : FragmentId) : Prop :=
  (A j ∧ j < id) ∨ s.fragments.size ≤ j

theorem Sound.before (sound : Sound A s) (id : FragmentId) : Sound (Before A s id) s := by
  refine ⟨.inr, fun {j form recipe} allowed given => ?_, fun {j form v} allowed found => ?_⟩
  · have inside : j < s.fragments.size := by
      obtain ⟨f, present, _⟩ := Option.bind_eq_some_iff.1 given
      exact (Array.getElem?_eq_some_iff.1 present).1
    obtain ⟨owned, less⟩ := allowed.resolve_right (Nat.not_le_of_lt inside)
    exact (sound.refers owned given).imp fun i earlier =>
      ⟨.inl ⟨earlier.1, Nat.lt_trans earlier.2 less⟩, earlier.2⟩
  · exact sound.justified (allowed.elim (·.1) sound.fresh) found

theorem Before.imp (sound : Sound A s) {id j : FragmentId} (before : Before A s id j) : A j :=
  before.elim (·.1) sound.fresh

theorem Owns.not_before (owned : Owns A s id) : ¬Before A s id id := fun before =>
  before.elim (fun earlier => Nat.lt_irrefl _ earlier.2) (Nat.not_le_of_lt owned.2)

theorem Extends.of_before (sound : Sound A s) (step : Extends (Before A s id) s t) :
    Extends A s t :=
  ⟨step.size, step.labels, step.supplied, step.slots,
    fun outside => step.frame fun before => outside (before.imp sound)⟩

theorem Sound.of_before (sound : Sound A s) (later : Sound (Before A s id) t)
    (step : Extends (Before A s id) s t) : Sound A t := by
  refine ⟨fun outside => sound.fresh (Nat.le_trans step.size outside),
    fun {j form recipe} allowed given => ?_, fun {j form v} allowed found => ?_⟩
  · by_cases before : Before A s id j
    · exact (later.refers before given).imp fun i earlier => ⟨earlier.1.imp sound, earlier.2⟩
    · rw [CompileState.recipe?, step.frame before] at given
      exact sound.refers allowed given
  · by_cases before : Before A s id j
    · exact later.justified before found
    · have inside : j < s.fragments.size := Nat.lt_of_not_le fun outside => before (.inr outside)
      have earlier : s.known? j (some form) = some v := by
        rw [known?_eq_some] at found ⊢
        rwa [slot?, step.frame before] at found
      exact step.justified inside (sound.justified allowed earlier)

/-! Marking a form, keeping its value, and adding a fragment. -/

theorem size_setSlot (slot : Slot) :
    (s.setSlot id form slot).fragments.size = s.fragments.size := by
  simp [setSlot]

theorem supplied_setSlot (slot : Slot) (j : FragmentId) :
    (s.setSlot id form slot).fragments[j]?.map Fragment.supplied =
      s.fragments[j]?.map Fragment.supplied := by
  rw [getElem?_setSlot, Option.map_map]
  refine congrArg (Option.map · _) (funext fun f => ?_)
  by_cases same : j = id <;> simp [same]

@[simp] theorem recipe?_setSlot (slot : Slot) : (s.setSlot id form slot).recipe? = s.recipe? := by
  funext j g
  simp only [recipe?, getElem?_setSlot]
  cases s.fragments[j]? with
  | none => rfl
  | some f => by_cases same : j = id <;> simp [same, Fragment.recipe?]

@[simp] theorem query?_setSlot (slot : Slot) : (s.setSlot id form slot).query? = s.query? := by
  funext j g
  simp only [query?, getElem?_setSlot]
  cases s.fragments[j]? with
  | none => rfl
  | some f =>
    by_cases same : j = id <;>
      simp [same, Fragment.query?, Fragment.recipe?, Fragment.supplies, CompileState.setSlot]

theorem known?_setSlot {slot : Slot} (unmade : s.known? id (some form) = none) {j : FragmentId}
    {g : Option Form} (found : s.known? j g = some value) :
    (s.setSlot id form slot).known? j g = some value := by
  cases g with
  | none => exact found
  | some g =>
    rw [known?_eq_some, slot?_setSlot_of_ne, known?_eq_some.1 found]
    rintro ⟨rfl, rfl⟩
    rw [unmade] at found
    cases found

theorem Extends.setSlot_cooking (owned : A id) (new : s.slot? id form = none) :
    Extends A s (s.setSlot id form .cooking) := by
  refine ⟨Nat.le_of_eq (size_setSlot _).symm, rfl, fun _ => supplied_setSlot _ _,
    slot?_setSlot_of_new new, fun {j} outside => ?_⟩
  have differ : j ≠ id := fun same => outside (same ▸ owned)
  rw [getElem?_setSlot]
  cases s.fragments[j]? <;> simp [differ]

theorem Sound.setSlot_cooking (sound : Sound A s) (new : s.slot? id form = none) :
    Sound A (s.setSlot id form .cooking) := by
  have unmade : s.known? id (some form) = none := by simp [known?, new]
  refine ⟨fun outside => sound.fresh (size_setSlot (s := s) _ ▸ outside),
    fun allowed given => sound.refers allowed (by simpa using given),
    fun {j g v} allowed found => ?_⟩
  have earlier : s.known? j (some g) = some v := by
    rw [known?_eq_some] at found ⊢
    rcases of_slot?_setSlot found with ⟨_, cooking⟩ | earlier
    · cases cooking
    · exact earlier
  have justified := sound.justified allowed earlier
  exact ⟨fun asks => Query.eval_mono (fun _ _ _ => known?_setSlot unmade)
    (justified.asked (by simpa using asks)), fun check => justified.checked (by simpa using check)⟩

/-- What was marked, worked on and kept is an extension of what was there before the mark. -/
theorem Extends.setSlot_known (owned : A id) (new : s.slot? id form = none)
    (step : Extends A (s.setSlot id form .cooking) t) (v : Option Text) :
    Extends A s (t.setSlot id form (.known v)) := by
  have first := (Extends.setSlot_cooking owned new).trans step
  refine ⟨by rw [size_setSlot]; exact first.size, first.labels,
    fun inside => (supplied_setSlot _ _).trans (first.supplied inside), fun {j g x} found => ?_,
    fun {j} outside => ?_⟩
  · rw [slot?_setSlot_of_ne, first.slots found]
    rintro ⟨rfl, rfl⟩
    exact Option.some_ne_none x (found.symm.trans new)
  · have differ : j ≠ id := fun same => outside (same ▸ owned)
    rw [getElem?_setSlot, first.frame outside]
    cases s.fragments[j]? <;> simp [differ]

theorem Sound.setSlot_known (sound : Sound A t) (cooking : t.slot? id form = some .cooking)
    {v : Option Text} (made : Justified t id form v) : Sound A (t.setSlot id form (.known v)) := by
  have unmade : t.known? id (some form) = none := by simp [known?, cooking]
  have kept {j : FragmentId} {g : Form} {w : Option Text} (justified : Justified t j g w) :
      Justified (t.setSlot id form (.known v)) j g w :=
    ⟨fun asks => Query.eval_mono (fun _ _ _ => known?_setSlot unmade)
      (justified.asked (by simpa using asks)),
      fun check => justified.checked (by simpa using check)⟩
  refine ⟨fun outside => sound.fresh (size_setSlot (s := t) _ ▸ outside),
    fun allowed given => sound.refers allowed (by simpa using given),
    fun {j g w} allowed found => ?_⟩
  rcases of_slot?_setSlot (known?_eq_some.1 found) with ⟨⟨rfl, rfl⟩, same⟩ | earlier
  · cases same
    exact kept made
  · exact kept (sound.justified allowed (known?_eq_some.2 earlier))

def push (s : CompileState) (f : Fragment) : CompileState :=
  { s with fragments := s.fragments.push f }

theorem slot?_push {f : Fragment} (unread : f.slots = []) : (s.push f).slot? = s.slot? := by
  funext j g
  simp only [slot?, push, Array.getElem?_push]
  split
  · next same => simp [same, Fragment.slot?, unread]
  · rfl

theorem recipe?_push_self (f : Fragment) (form : Form) :
    (s.push f).recipe? s.fragments.size form = f.recipe? (some form) := by
  simp [recipe?, push]

theorem recipe?_push_of_ne {f : Fragment} (other : id ≠ s.fragments.size) (form : Form) :
    (s.push f).recipe? id form = s.recipe? id form := by
  simp [recipe?, push, Array.getElem?_push, other]

theorem Extends.push (sound : Sound A s) {f : Fragment} (unread : f.slots = []) :
    Extends A s (s.push f) := by
  have old {j : FragmentId} (other : j ≠ s.fragments.size) :
      (s.push f).fragments[j]? = s.fragments[j]? := by
    simp [CompileState.push, Array.getElem?_push, other]
  refine ⟨by simp [CompileState.push], rfl, fun inside => by rw [old (Nat.ne_of_lt inside)],
    fun found => by rwa [slot?_push unread], fun {j} outside => old ?_⟩
  rintro rfl
  exact outside (sound.fresh (Nat.le_refl _))

theorem Sound.push (sound : Sound A s) {f : Fragment} (unread : f.slots = [])
    (within : ∀ {form recipe}, f.recipe? (some form) = some recipe → recipe.Within (Owns A s)) :
    Sound A (s.push f) := by
  have size : (s.push f).fragments.size = s.fragments.size + 1 := by simp [CompileState.push]
  refine ⟨fun outside => sound.fresh (by omega), fun {j form recipe} allowed given => ?_,
    fun {j form v} allowed found => ?_⟩
  · by_cases same : j = s.fragments.size
    · subst same
      rw [recipe?_push_self] at given
      exact within given
    · rw [recipe?_push_of_ne same] at given
      exact sound.refers allowed given
  · have earlier : s.slot? j form = some (.known v) := by
      rw [known?_eq_some, slot?_push unread] at found
      exact found
    obtain ⟨g, present, _⟩ := Option.bind_eq_some_iff.1 earlier
    exact (Extends.push sound unread).justified (Array.getElem?_eq_some_iff.1 present).1
      (sound.justified allowed (known?_eq_some.2 earlier))

end CompileState
end ShellToDeno
