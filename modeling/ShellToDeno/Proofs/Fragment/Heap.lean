import Mathlib.Data.Finset.Card
import Mathlib.Data.Finset.Prod
import ShellToDeno.Compile.Node
import ShellToDeno.Proofs.Fragment.Query

/-!
# Heaps of fragments

A heap is a store of fragments that give fixed answers or pass reads on to each other, in cycles
too. What a form gives is `CompileState.value?`, a computation without slots that goes a bounded
number of reads deep. A read after any other reads answers just that, and faults just where no depth
gives an answer: a slot that a fault has left half made belongs to a form that can give nothing
(`Settled`), which is what the induction on reads carries along.
-/
namespace ShellToDeno

/-- The recipe gives a fixed answer, or what a read of some fragment gives. -/
def Recipe.Forwards : Recipe → Prop
  | text _ | absent | same _ _ | labelled _ _ => True
  | _ => False

namespace CompileState

/-- A store of fragments that forward reads, in which nothing has been read yet. -/
structure IsHeap (h : CompileState) : Prop where
  forwards : ∀ f ∈ h.fragments, ∀ entry ∈ f.supplied, entry.2.Forwards
  unread : ∀ f ∈ h.fragments, f.slots = []

/-- What a form gives, as far as it takes no more than `n` reads inside each other. -/
def value? (h : CompileState) : Nat → FragmentId → Option Form → Option (Option Text)
  | n + 1, id, some form => (h.query? id form).bind fun q => q.eval (h.value? n)
  | _, _, _ => none

variable {h s t : CompileState} {id : FragmentId} {form : Option Form}

theorem value?_succ {n : Nat} {value : Option Text} (found : h.value? n id form = some value) :
    h.value? (n + 1) id form = some value := by
  induction n generalizing id form value with
  | zero => simp [value?] at found
  | succ n ih =>
    cases form with
    | none => simp [value?] at found
    | some form =>
      rw [value?] at found
      obtain ⟨q, asked, found⟩ := Option.bind_eq_some_iff.1 found
      rw [value?, asked]
      exact Query.eval_mono (fun _ _ _ => ih) found

theorem value?_of_le {n m : Nat} (le : n ≤ m) {value : Option Text}
    (found : h.value? n id form = some value) : h.value? m id form = some value := by
  induction le with
  | refl => exact found
  | step _ ih => exact value?_succ ih

/-- A form gives a value, after however many reads. -/
def Gives (h : CompileState) (id : FragmentId) (form : Option Form) (value : Option Text) : Prop :=
  ∃ n, h.value? n id form = some value

theorem Gives.unique {v w : Option Text} (left : h.Gives id form v) (right : h.Gives id form w) :
    v = w := by
  obtain ⟨n, left⟩ := left
  obtain ⟨m, right⟩ := right
  have left := value?_of_le (Nat.le_max_left n m) left
  have right := value?_of_le (Nat.le_max_right n m) right
  exact Option.some.inj (left.symm.trans right)

/-- The store `s` is the heap `h` after some reads. -/
structure ReadFrom (h s : CompileState) : Prop where
  size : s.fragments.size = h.fragments.size
  records : ∀ id : FragmentId, s.fragments[id]?.map Fragment.supplied =
    h.fragments[id]?.map Fragment.supplied
  labels : s.labels = h.labels
  known : ∀ {id form value}, s.slot? id form = some (.known value) → h.Gives id (some form) value

theorem ReadFrom.present (read : ReadFrom h s) {f : Fragment}
    (present : s.fragments[id]? = some f) :
    ∃ g, h.fragments[id]? = some g ∧ g.supplied = f.supplied := by
  have records := read.records id
  rw [present] at records
  exact Option.map_eq_some_iff.1 records.symm

theorem ReadFrom.query? (read : ReadFrom h s) (id : FragmentId) (form : Form) :
    s.query? id form = h.query? id form := by
  have records := read.records id
  rw [CompileState.query?, CompileState.query?, read.labels]
  cases present : s.fragments[id]? with
  | none =>
    rw [present] at records
    rw [Option.map_eq_none_iff.1 records.symm]
  | some f =>
    obtain ⟨g, given, same⟩ := read.present present
    simp [given, Fragment.query?, Fragment.recipe?, Fragment.supplies, same]

/-- The forms that have not been asked for yet. -/
def unread (s : CompileState) : Finset (FragmentId × Form) :=
  (Finset.range s.fragments.size ×ˢ Form.all.toFinset).filter fun x => s.slot? x.1 x.2 = none

theorem card_unread_le : s.unread.card ≤ 22 * s.fragments.size := by
  calc s.unread.card ≤ (Finset.range s.fragments.size ×ˢ Form.all.toFinset).card :=
        Finset.card_filter_le _ _
    _ = s.fragments.size * Form.all.toFinset.card := by rw [Finset.card_product, Finset.card_range]
    _ = 22 * s.fragments.size := by rw [Nat.mul_comm]; rfl

theorem unread_subset (size : t.fragments.size = s.fragments.size)
    (grows : ∀ {id form slot}, s.slot? id form = some slot → t.slot? id form = some slot) :
    t.unread ⊆ s.unread := by
  intro x member
  simp only [unread, Finset.mem_filter, size] at member ⊢
  refine ⟨member.1, ?_⟩
  cases found : s.slot? x.1 x.2 with
  | none => rfl
  | some slot => rw [grows found] at member; exact absurd member.2 (by simp)

theorem card_unread_setSlot {f : Fragment} {form : Form} (present : s.fragments[id]? = some f)
    (new : s.slot? id form = none) (slot : Slot) :
    (s.setSlot id form slot).unread.card < s.unread.card := by
  have size : (s.setSlot id form slot).fragments.size = s.fragments.size := by simp [setSlot]
  have inside : id < s.fragments.size := (Array.getElem?_eq_some_iff.1 present).1
  have listed : form ∈ Form.all := by cases form <;> decide
  refine Finset.card_lt_card (Finset.ssubset_iff_of_subset ?_ |>.2 ⟨(id, form), ?_, ?_⟩)
  · exact unread_subset size (slot?_setSlot_of_new new)
  · simp [unread, inside, listed, new]
  · simp [unread, slot?_setSlot_self present]

/-- Only forms that can give nothing are half made. -/
def Settled (h s : CompileState) : Prop :=
  ∀ id form n, s.slot? id form = some .cooking → h.value? n id (some form) = none

/-- What is true of the outcome of reads whose answer, at each depth, is `answer`. -/
structure Answers (h s : CompileState) (fuel : Nat) (answer : Nat → Option (Option Text))
    (result : Except Fault (Option Text) × CompileState) : Prop where
  readFrom : ReadFrom h result.2
  grows : ∀ {id form slot}, s.slot? id form = some slot → result.2.slot? id form = some slot
  value : ∀ {v}, result.1 = .ok v → ∃ n, answer n = some v
  clean : ∀ {v}, result.1 = .ok v → ∀ {id form}, result.2.slot? id form = some .cooking →
    s.slot? id form = some .cooking
  stuck : ∀ {fault}, result.1 = .error fault → fault ≠ .exhausted → ∀ n,
    (∀ id form, s.slot? id form = some .cooking → h.value? n id (some form) = none) →
      answer n = none
  settled : ∀ {fault}, result.1 = .error fault → fault ≠ .exhausted →
    Settled h s → Settled h result.2
  enough : s.unread.card < fuel → result.1 ≠ .error .exhausted

theorem Answers.fault {fuel : Nat} {answer : Nat → Option (Option Text)} {fault : Fault}
    (readFrom : ReadFrom h s) (enough : fault = .exhausted → fuel = 0)
    (stuck : fault ≠ .exhausted → ∀ n,
      (∀ id form, s.slot? id form = some .cooking → h.value? n id (some form) = none) →
        answer n = none) :
    Answers h s fuel answer (.error fault, s) := by
  refine ⟨readFrom, fun found => found, by simp, by simp, ?_, fun _ _ settled => settled, ?_⟩
  · rintro _ ⟨⟩ real
    exact stuck real
  · rintro fewer ⟨⟩
    rw [enough rfl] at fewer
    exact absurd fewer (Nat.not_lt_zero _)

/-- A query is answered as its reads are. -/
theorem Answers.query {c : Compiler} {fuel : Nat}
    (reads : ∀ {s : CompileState} id form, ReadFrom h s → Answers h s fuel (h.value? · id form)
      (Compile.run s (c.readAny id form)))
    (q : Query) (readFrom : ReadFrom h s) :
    Answers h s fuel (fun n => q.eval (h.value? n)) (Compile.run s (q.run c)) := by
  induction q generalizing s with
  | give value =>
    refine ⟨readFrom, id, ?_, fun _ => id, ?_, ?_, ?_⟩
    · rintro v ⟨⟩
      exact ⟨0, rfl⟩
    all_goals simp [Query.run]
  | missing => exact .fault readFrom (by simp) fun _ _ _ => rfl
  | ask id form next ih =>
    have asked := reads id form readFrom
    simp only [Query.run, Compile.run_bind]
    generalize Compile.run s (c.readAny id form) = result at asked ⊢
    obtain ⟨outcome, t⟩ := result
    cases outcome with
    | error fault =>
      refine ⟨asked.readFrom, asked.grows, by simp, by simp, ?_,
        asked.settled, asked.enough⟩
      intro _ error real n marks
      simp [Query.eval, asked.stuck error real n marks]
    | ok answer =>
      have rest := ih answer asked.readFrom
      have size : t.fragments.size = s.fragments.size :=
        asked.readFrom.size.trans readFrom.size.symm
      refine ⟨rest.readFrom, fun found => rest.grows (asked.grows found), ?_,
        fun ok _ _ found => asked.clean rfl (rest.clean ok found), ?_, ?_, ?_⟩
      · intro v ok
        obtain ⟨n, first⟩ := asked.value rfl
        obtain ⟨m, second⟩ := rest.value ok
        refine ⟨max n m, ?_⟩
        rw [Query.eval, value?_of_le (Nat.le_max_left n m) first]
        exact Query.eval_mono (fun _ _ _ => value?_of_le (Nat.le_max_right n m)) second
      · intro fault error real n marks
        rw [Query.eval, Option.bind_eq_none_iff]
        intro v found
        obtain rfl : v = answer := Gives.unique ⟨n, found⟩ (asked.value rfl)
        exact rest.stuck error real n fun id form cooking => marks id form (asked.clean rfl cooking)
      · intro fault error real settled
        exact rest.settled error real fun id form n cooking =>
          settled id form n (asked.clean rfl cooking)
      · intro enough
        have fewer := Finset.card_le_card (unread_subset size asked.grows)
        exact rest.enough (Nat.lt_of_le_of_lt fewer enough)

theorem ReadFrom.setSlot {form : Form} {slot : Slot} (readFrom : ReadFrom h s)
    (kept : ∀ v, slot = .known v → h.Gives id (some form) v) :
    ReadFrom h (s.setSlot id form slot) := by
  refine ⟨?_, fun j => ?_, readFrom.labels, fun {j g v} found => ?_⟩
  · simpa [CompileState.setSlot] using readFrom.size
  · rw [← readFrom.records j, getElem?_setSlot, Option.map_map]
    refine congrArg (Option.map · _) (funext fun f => ?_)
    by_cases same : j = id <;> simp [same]
  · rcases of_slot?_setSlot found with ⟨⟨rfl, rfl⟩, same⟩ | found
    · exact kept v same.symm
    · exact readFrom.known found

theorem IsHeap.query? (heap : h.IsHeap) {f : Fragment} (present : h.fragments[id]? = some f)
    (form : Form) : ∃ q, h.query? id form = some q := by
  rw [CompileState.query?, present]
  simp only [Option.bind_some, Fragment.query?]
  cases given : f.recipe? (some form) with
  | none => exact ⟨_, rfl⟩
  | some recipe =>
    have forwards := heap.forwards f (Array.mem_of_getElem? present) (some form, recipe)
      (Fragment.mem_of_recipe? given)
    cases recipe <;> first | exact ⟨_, rfl⟩ | exact forwards.elim

/-- A form that is asked for the first time answers what its query gives. -/
theorem Answers.make (heap : h.IsHeap) {c : Compiler} {fuel : Nat} {f : Fragment} {form : Form}
    (queries : ∀ {s : CompileState} (q : Query), ReadFrom h s →
      Answers h s fuel (fun n => q.eval (h.value? n)) (Compile.run s (q.run c)))
    (readFrom : ReadFrom h s) (present : s.fragments[id]? = some f)
    (new : s.slot? id form = none) :
    Answers h s (fuel + 1) (h.value? · id (some form))
      (Compile.run s (Fragment.make c id form)) := by
  obtain ⟨g, given, _⟩ := readFrom.present present
  obtain ⟨q, asked⟩ := heap.query? given form
  have readMarked : ReadFrom h (s.setSlot id form .cooking) := readFrom.setSlot (by simp)
  have made := queries q readMarked
  rw [Fragment.run_make_query ((readFrom.query? id form).trans asked)]
  generalize Compile.run (s.setSlot id form .cooking) (q.run c) = result at made ⊢
  obtain ⟨outcome, t⟩ := result
  cases outcome with
  | ok v =>
    obtain ⟨k, kept, _⟩ : ∃ k, t.fragments[id]? = some k ∧ k.supplied = g.supplied := by
      have records := made.readFrom.records id
      rw [given] at records
      exact Option.map_eq_some_iff.1 records
    have gives : h.Gives id (some form) v := by
      obtain ⟨n, value⟩ := made.value rfl
      exact ⟨n + 1, by rw [value?, asked]; exact value⟩
    simp only [kept]
    refine ⟨made.readFrom.setSlot ?_, fun {j g slot} found => ?_, ?_, ?_, by simp, by simp, by simp⟩
    · rintro _ ⟨⟩
      exact gives
    · rw [slot?_setSlot_of_ne, made.grows (slot?_setSlot_of_new new found)]
      rintro ⟨rfl, rfl⟩
      exact Option.some_ne_none slot (found.symm.trans new)
    · rintro _ ⟨⟩
      exact gives
    · rintro w ok j g cooking
      by_cases same : j = id ∧ g = form
      · obtain ⟨rfl, rfl⟩ := same
        rw [slot?_setSlot_self kept] at cooking
        cases cooking
      · rw [slot?_setSlot_of_ne same] at cooking
        have cooking := made.clean rfl cooking
        rwa [slot?_setSlot_of_ne same] at cooking
  | error fault =>
    have stuck (real : fault ≠ .exhausted) (n : Nat)
        (marks : ∀ id form, s.slot? id form = some .cooking → h.value? n id (some form) = none) :
        h.value? n id (some form) = none := by
      induction n with
      | zero => rfl
      | succ n ih =>
        have fewer (j : FragmentId) (g : Form) (cooking : s.slot? j g = some .cooking) :
            h.value? n j (some g) = none := by
          cases less : h.value? n j (some g) with
          | none => rfl
          | some v => rw [← marks j g cooking, value?_succ less]
        rw [value?, asked]
        refine made.stuck rfl real n fun j g cooking => ?_
        rcases of_slot?_setSlot cooking with ⟨⟨rfl, rfl⟩, _⟩ | cooking
        · exact ih fewer
        · exact fewer j g cooking
    refine ⟨made.readFrom, fun found =>
      made.grows (slot?_setSlot_of_new new found), by simp, by simp, ?_, ?_, ?_⟩
    · rintro _ ⟨⟩ real
      exact stuck real
    · rintro _ ⟨⟩ real settled
      refine made.settled rfl real fun j g n cooking => ?_
      rcases of_slot?_setSlot cooking with ⟨⟨rfl, rfl⟩, _⟩ | cooking
      · exact stuck real n fun j g cooking => settled j g n cooking
      · exact settled j g n cooking
    · intro enough
      have fewer := card_unread_setSlot present new .cooking
      exact made.enough (by omega)

/-- A read answers what its form gives. -/
theorem Answers.readAny (heap : h.IsHeap) (registry : Registry) (fuel : Nat) (id : FragmentId)
    (form : Option Form) (readFrom : ReadFrom h s) :
    Answers h s fuel (h.value? · id form)
      (Compile.run s ((Compiler.ofFuel registry fuel).readAny id form)) := by
  induction fuel generalizing s id form with
  | zero => exact .fault readFrom (fun _ => rfl) (absurd rfl)
  | succ fuel ih =>
    change Answers h s (fuel + 1) _
      (Compile.run s (Fragment.read (Compiler.ofFuel registry fuel) id form))
    cases form with
    | none => exact .fault readFrom (by simp) fun _ n _ => by cases n <;> rfl
    | some form =>
    cases present : s.fragments[id]? with
    | none =>
      rw [Fragment.run_read_missing present]
      refine .fault readFrom (by simp) fun _ n _ => ?_
      have gone : h.query? id form = none := by
        rw [← readFrom.query?, CompileState.query?, present, Option.bind_none]
      cases n <;> simp [value?, gone]
    | some f =>
    cases found : s.slot? id form with
    | none =>
      rw [Fragment.run_read_new present found]
      exact .make heap (fun q => .query ih q) readFrom present found
    | some slot =>
    cases slot with
    | known v =>
      rw [Fragment.run_read_known found]
      refine ⟨readFrom, fun found => found, ?_,
        fun _ => fun found => found, by simp, by simp, by simp⟩
      rintro _ ⟨⟩
      exact readFrom.known found
    | cooking =>
      rw [Fragment.run_read_cooking found]
      exact .fault readFrom (by simp) fun _ n marks => marks id form found

/-- With fuel for every form of the heap, a read has an outcome, and it is what the form gives. -/
theorem toOption_readAny (heap : h.IsHeap) {registry : Registry} {fuel : Nat}
    (enough : 22 * h.fragments.size < fuel) (readFrom : ReadFrom h s) (settled : Settled h s)
    (value : Option Text) :
    (Compile.run s ((Compiler.ofFuel registry fuel).readAny id form)).1.toOption = some value ↔
      h.Gives id form value := by
  have answers := Answers.readAny heap registry fuel id form readFrom
  have bound : s.unread.card < fuel :=
    Nat.lt_of_le_of_lt card_unread_le (readFrom.size ▸ enough)
  generalize Compile.run s ((Compiler.ofFuel registry fuel).readAny id form) = result at answers ⊢
  obtain ⟨outcome, t⟩ := result
  cases outcome with
  | ok v =>
    have gives : h.Gives id form v := answers.value rfl
    exact ⟨fun same => Option.some.inj same ▸ gives,
      fun other => congrArg some (gives.unique other)⟩
  | error fault =>
    have real : fault ≠ .exhausted := fun same => answers.enough bound (same ▸ rfl)
    refine ⟨fun same => (nomatch same), fun ⟨n, found⟩ => ?_⟩
    have none := answers.stuck rfl real n fun id form cooking => settled id form n cooking
    exact absurd (found.symm.trans none) (Option.some_ne_none value)

theorem readAny_settled (heap : h.IsHeap) {registry : Registry} {fuel : Nat}
    (enough : 22 * h.fragments.size < fuel) (readFrom : ReadFrom h s) (settled : Settled h s) :
    let result := Compile.run s ((Compiler.ofFuel registry fuel).readAny id form)
    ReadFrom h result.2 ∧ Settled h result.2 ∧ result.1 ≠ .error .exhausted := by
  have answers := Answers.readAny heap registry fuel id form readFrom
  have bound : s.unread.card < fuel :=
    Nat.lt_of_le_of_lt card_unread_le (readFrom.size ▸ enough)
  refine ⟨answers.readFrom, ?_, answers.enough bound⟩
  cases outcome : (Compile.run s ((Compiler.ofFuel registry fuel).readAny id form)).1 with
  | ok v => exact fun j g n cooking => settled j g n (answers.clean outcome cooking)
  | error fault =>
    have real : fault ≠ .exhausted := fun same => answers.enough bound (same ▸ outcome)
    exact answers.settled outcome real settled

end CompileState

end ShellToDeno
