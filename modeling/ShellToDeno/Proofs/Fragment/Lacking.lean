import ShellToDeno.Proofs.Fragment.Derivation
import ShellToDeno.Proofs.Quoting.Joined

/-!
# Fragments without a text to show

A text to show is made from few forms of a fragment, and each of these is supplied or made from
others of them. A fragment that supplies none has none (`CompileState.Lacks`), however often it is
read. Where such a fragment is joined with others, the joined one has no template either
(`Arguments.of_run_read_combined`).
-/
namespace ShellToDeno

/-- The forms that a text to show is made from. -/
def Form.isShown : Form → Bool
  | argument | quotedInnards | pureCommand | redirectedCommand | chainedCommand | plainCall
  | redirectedCall | textCall | templateInnards | template | stringValue => true
  | _ => false

theorem Form.isShown_asked {given : Form → Bool} {form g : Form} (shown : form.isShown)
    (number : given .number = false) (member : g ∈ form.asked given) : g.isShown := by
  cases form
  case stringValue =>
    simp only [asked, number] at member
    rcases List.mem_pair.1 member with rfl | rfl <;> rfl
  case redirectedCommand | chainedCommand | plainCall | redirectedCall | textCall |
      templateInnards | template =>
    obtain rfl := List.mem_singleton.1 member
    rfl
  case argument | quotedInnards | pureCommand => cases member
  all_goals cases shown

/-- Nothing is made from nothing. -/
theorem Form.eval_derivation_lacking (id : FragmentId) {given : Form → Bool} {form : Form}
    (shown : form.isShown) (number : given .number = false) :
    (form.derivation id given).eval (fun _ _ => some none) = some none := by
  cases form
  case stringValue => simp [derivation, number, Query.first, Query.eval]
  case argument | quotedInnards | pureCommand | redirectedCommand | chainedCommand | plainCall |
      redirectedCall | textCall | templateInnards | template => rfl
  all_goals cases shown

/-- A fragment without a text to show: if anything is known of these forms, it is that they are
missing. -/
structure Fragment.Lacks (f : Fragment) : Prop where
  unsupplied : ∀ form, form.isShown → f.recipe? (some form) = none
  number : f.recipe? (some .number) = none
  kept : ∀ form value, form.isShown → f.slot? form = some (.known value) → value = none

namespace CompileState
variable {s t : CompileState} {id : FragmentId} {form : Form}

def Lacks (s : CompileState) (id : FragmentId) : Prop := ∃ f, s.fragments[id]? = some f ∧ f.Lacks

/-- Nothing was found, and the fragment is as it was. -/
def Misses (id : FragmentId) (result : Except Fault (Option Text) × CompileState) : Prop :=
  result.2.Lacks id ∧ ∀ value, result.1 = .ok value → value = none

theorem Lacks.setSlot (lacks : s.Lacks id) {slot : Slot}
    (none : ∀ value, slot = .known value → value = none) :
    (s.setSlot id form slot).Lacks id := by
  obtain ⟨f, present, unsupplied, number, kept⟩ := lacks
  refine ⟨f.setSlot form slot, by simp [getElem?_setSlot, present], unsupplied, number, ?_⟩
  intro g value shown found
  by_cases same : g = form
  · subst same
    rw [Fragment.slot?_setSlot_self] at found
    exact none value (Option.some.inj found)
  · rw [Fragment.slot?_setSlot_of_ne same] at found
    exact kept g value shown found

theorem Lacks.query {c : Compiler}
    (reads : ∀ {s : CompileState} (g : Form), g.isShown → s.Lacks id →
      Misses id (Compile.run s (c.read id g)))
    {q : Query} (asks : q.Asks fun j g => j = id ∧ ∃ h, g = some h ∧ h.isShown)
    (nothing : q.eval (fun _ _ => some none) = some none) (lacks : s.Lacks id) :
    Misses id (Compile.run s (q.run c)) := by
  induction asks generalizing s with
  | give value =>
    refine ⟨lacks, ?_⟩
    rintro _ ⟨⟩
    exact Option.some.inj nothing
  | @ask j g next here _ ih =>
    obtain ⟨rfl, h, rfl, shown⟩ := here
    have first := reads h shown lacks
    rw [Query.run, Compile.run_bind]
    rw [Compiler.read] at first
    generalize Compile.run s (c.readAny j (some h)) = step at first ⊢
    obtain ⟨outcome, t⟩ := step
    cases outcome with
    | error fault => exact ⟨first.1, by simp⟩
    | ok value =>
      obtain rfl := first.2 value rfl
      exact ih none nothing first.1

/-- A form to show is never found in a fragment that lacks them. -/
theorem Lacks.run_read (registry : Registry) (fuel : Nat) (shown : form.isShown)
    (lacks : s.Lacks id) :
    Misses id (Compile.run s ((Compiler.ofFuel registry fuel).read id form)) := by
  induction fuel generalizing s form with
  | zero => exact ⟨lacks, by simp [Compiler.read, Compiler.ofFuel]⟩
  | succ fuel ih =>
    change Misses id (Compile.run s (Fragment.read _ id (some form)))
    have given := lacks
    obtain ⟨f, present, inner⟩ := given
    cases slot : s.slot? id form with
    | some found =>
      cases found with
      | known value =>
        rw [Fragment.run_read_known slot]
        refine ⟨lacks, ?_⟩
        rintro _ ⟨⟩
        exact inner.kept form value shown (by simpa [slot?, present] using slot)
      | cooking =>
        rw [Fragment.run_read_cooking slot]
        exact ⟨lacks, by simp⟩
    | none =>
      have unsupplied : f.supplies (some .number) = false := by
        rw [Fragment.supplies, inner.number]
        rfl
      have derived : s.query? id form = some (form.derivation id fun g => f.supplies (some g)) := by
        simp [query?, present, Fragment.query?, inner.unsupplied form shown]
      have marked : (s.setSlot id form .cooking).Lacks id := lacks.setSlot (by simp)
      have step := marked.query (fun g shown lacks => ih shown lacks)
        (Form.derivation_asks_of (fun g => f.supplies (some g)) form fun g member =>
          ⟨rfl, g, rfl, Form.isShown_asked shown unsupplied member⟩)
        (Form.eval_derivation_lacking id shown unsupplied)
      rw [Fragment.run_read_new present slot, Fragment.run_make_query derived]
      generalize Compile.run (s.setSlot id form .cooking) _ = made at step ⊢
      obtain ⟨outcome, t⟩ := made
      cases outcome with
      | error fault => exact ⟨step.1, by simp⟩
      | ok value =>
        obtain rfl := step.2 value rfl
        have still := step.1
        obtain ⟨g, kept, _⟩ := still
        simp only [kept]
        refine ⟨step.1.setSlot ?_, ?_⟩
        · rintro _ ⟨⟩
          rfl
        · rintro _ ⟨⟩
          rfl

/-- A form that was read from a new fragment was made by its recipe. -/
theorem of_run_read_push {fields : Fields} {recipe : Recipe} {registry : Registry} {fuel : Nat}
    {value : Option Text} (supplied : fields.look form = some recipe)
    (ran : Compile.run (s.push (.ofFields fields))
      ((Compiler.ofFuel registry (fuel + 1)).read s.fragments.size form) = (.ok value, t)) :
    ∃ u, Compile.run ((s.push (.ofFields fields)).setSlot s.fragments.size form .cooking)
      (Fragment.cook (.ofFuel registry fuel) recipe) = (.ok value, u) := by
  have present : (s.push (.ofFields fields)).fragments[s.fragments.size]? =
      some (.ofFields fields) := by
    simp [push]
  have unread : (s.push (.ofFields fields)).slot? s.fragments.size form = none := by
    rw [slot?_push rfl]
    simp [slot?]
  have made := (Fragment.run_read_new (c := .ofFuel registry fuel) present unread).symm.trans ran
  rw [Fragment.run_make present, Fragment.making, Fragment.recipe?_ofFields, supplied] at made
  dsimp only at made
  generalize Compile.run _ (Fragment.cook (.ofFuel registry fuel) recipe) = cooked at made ⊢
  obtain ⟨outcome, u⟩ := cooked
  cases outcome with
  | error fault => cases made
  | ok found =>
    dsimp only at made
    split at made
    · cases made
      exact ⟨u, rfl⟩
    · cases made

/-- Fragments with nothing but texts, of which one has none to show. -/
structure Blank (s : CompileState) (ids : List FragmentId) (blank : FragmentId) : Prop where
  texts : ∀ id ∈ ids, ∃ fields, fields.IsText ∧ s.Holds id fields
  lacks : s.Lacks blank

theorem Blank.of_eq {ids : List FragmentId} {blank : FragmentId} (here : s.Blank ids blank)
    (same : ∀ id ∈ blank :: ids, t.fragments[id]? = s.fragments[id]?) : t.Blank ids blank := by
  constructor
  · intro id member
    obtain ⟨fields, texts, f, present, inner⟩ := here.texts id member
    exact ⟨fields, texts, f, (same id (List.mem_cons_of_mem _ member)).trans present, inner⟩
  · obtain ⟨f, present, inner⟩ := here.lacks
    exact ⟨f, (same blank List.mem_cons_self).trans present, inner⟩

/-- No read of one of them helps. -/
theorem Blank.run_read {ids : List FragmentId} {blank : FragmentId} (here : s.Blank ids blank)
    (registry : Registry) (fuel : Nat) (member : id ∈ ids) (shown : form.isShown)
    {outcome : Except Fault (Option Text)}
    (ran : Compile.run s ((Compiler.ofFuel registry fuel).read id form) = (outcome, t)) :
    t.Blank ids blank ∧ (id = blank → ∀ value, outcome = .ok value → value = none) := by
  obtain ⟨fields, texts, holds⟩ := here.texts id member
  have spared := holds.readAny texts registry fuel (some form)
  rw [Compiler.read] at ran
  rw [ran] at spared
  have kept : ∀ j ∈ ids, ∃ fields, fields.IsText ∧ t.Holds j fields := by
    intro j inside
    by_cases same : j = id
    · subst same
      exact ⟨fields, texts, spared.1⟩
    · obtain ⟨others, plain, held⟩ := here.texts j inside
      exact ⟨others, plain, spared.2.holds same held⟩
  by_cases same : id = blank
  · subst same
    have missed := here.lacks.run_read registry fuel shown
    rw [Compiler.read, ran] at missed
    exact ⟨⟨kept, missed.1⟩, fun _ => missed.2⟩
  · obtain ⟨f, present, inner⟩ := here.lacks
    exact ⟨⟨kept, f, (spared.2.frame blank (Ne.symm same)).trans present, inner⟩,
      fun equal => absurd equal same⟩

end CompileState

namespace Arguments
open CompileState Compile
variable {s t : CompileState} {ids front : List FragmentId} {blank : FragmentId}
    (registry : Registry)
  (fuel : Nat)

theorem of_run_allHave {form : Form} (shown : form.isShown) (subset : front ⊆ ids)
    (here : s.Blank ids blank) {all : Bool}
    (ran : run s (allHave (.ofFuel registry fuel) form front) = (.ok all, t)) :
    t.Blank ids blank ∧ (blank ∈ front → all = false) := by
  induction front generalizing s with
  | nil =>
    cases ran
    exact ⟨here, by simp⟩
  | cons id front ih =>
    obtain ⟨inside, subset⟩ := List.cons_subset.1 subset
    rw [allHave] at ran
    obtain ⟨found, u, has, ran⟩ := of_run_bind ran
    obtain ⟨value, v, read, has⟩ := of_run_bind has
    cases has
    obtain ⟨after, missing⟩ := here.run_read registry fuel inside shown read
    cases value with
    | none =>
      cases ran
      exact ⟨after, fun _ => rfl⟩
    | some text =>
      obtain ⟨kept, others⟩ := ih subset after ran
      refine ⟨kept, fun member => ?_⟩
      rcases List.mem_cons.1 member with rfl | later
      · cases missing rfl _ rfl
      · exact others later

theorem of_run_templatePiece {id : FragmentId} (member : id ∈ ids) (here : s.Blank ids blank)
    {piece : Option Text}
    (ran : run s (Fragment.templatePiece (.ofFuel registry fuel) id) = (.ok piece, t)) :
    t.Blank ids blank ∧ (id = blank → piece = none) := by
  rw [Fragment.templatePiece] at ran
  obtain ⟨value, u, read, ran⟩ := of_run_bind ran
  obtain ⟨after, missing⟩ := here.run_read registry fuel member rfl read
  cases value with
  | some text =>
    cases ran
    refine ⟨after, fun same => ?_⟩
    cases missing same _ rfl
  | none =>
    obtain ⟨value, v, read, ran⟩ := of_run_bind ran
    obtain ⟨after, missing⟩ := after.run_read registry fuel member rfl read
    cases ran
    refine ⟨after, fun same => ?_⟩
    rw [missing same _ rfl]
    rfl

theorem of_run_templatePieces (subset : front ⊆ ids) (here : s.Blank ids blank)
    {pieces : Option (List Text)}
    (ran : run s (Fragment.joinPieces (Fragment.templatePiece (.ofFuel registry fuel)) front) =
      (.ok pieces, t)) (member : blank ∈ front) : pieces = none := by
  induction front generalizing s pieces with
  | nil => cases member
  | cons id front ih =>
    obtain ⟨inside, subset⟩ := List.cons_subset.1 subset
    rw [Fragment.joinPieces] at ran
    obtain ⟨piece, u, first, ran⟩ := of_run_bind ran
    obtain ⟨after, missing⟩ := of_run_templatePiece registry fuel inside here first
    cases piece with
    | none =>
      cases ran
      rfl
    | some text =>
      obtain ⟨others, v, rest, ran⟩ := of_run_bind ran
      cases ran
      rcases List.mem_cons.1 member with rfl | later
      · cases missing rfl
      · rw [ih subset after rest later]
        rfl

theorem of_run_shared {form : Form} (shown : form.isShown) (pieced : List FragmentId → Recipe)
    (here : s.Blank ids blank) (member : blank ∈ ids) {entry : Form × Recipe}
    (ran : run s (do
      if ← allHave (.ofFuel registry fuel) form ids then return (form, Recipe.joined form ids)
      return (form, pieced ids)) = (.ok entry, t)) :
        t.Blank ids blank ∧ entry = (form, pieced ids) := by
  obtain ⟨all, u, asked, ran⟩ := of_run_bind ran
  obtain ⟨after, missing⟩ := of_run_allHave registry fuel shown (List.Subset.refl ids) here asked
  obtain rfl := missing member
  cases ran
  exact ⟨after, rfl⟩

/-- Parts with a blank among them are joined piece by piece. -/
theorem of_run_combine (here : s.Blank ids blank) (member : blank ∈ ids) (several : ids.length ≠ 1)
    {id : FragmentId} (ran : run s (combine (.ofFuel registry fuel) ids) = (.ok id, t)) :
    ∃ (u : CompileState) (fields : Fields), u.Blank ids blank ∧ id = u.fragments.size ∧
      t = u.push (.ofFields fields) ∧ fields.look .templateInnards =
      some (.joinedTemplate ids) := by
  have alone : ∀ only, ids ≠ [only] := by
    intro only same
    exact several (congrArg List.length same)
  rw [combine.eq_2 _ _ alone] at ran
  obtain ⟨fields, u, shared, ran⟩ := of_run_bind ran
  simp only [sharedForms, List.mapM_cons, List.mapM_nil] at shared
  obtain ⟨argument, v, first, shared⟩ := of_run_bind shared
  obtain ⟨here, rfl⟩ := of_run_shared registry fuel rfl .joinedArgument here member first
  obtain ⟨others, w, shared, last⟩ := of_run_bind shared
  obtain ⟨quoted, v, second, shared⟩ := of_run_bind shared
  obtain ⟨here, rfl⟩ := of_run_shared registry fuel rfl .joinedQuoted here member second
  obtain ⟨rest, v, shared, next⟩ := of_run_bind shared
  obtain ⟨innards, v, third, shared⟩ := of_run_bind shared
  obtain ⟨here, rfl⟩ := of_run_shared registry fuel rfl .joinedTemplate here member third
  cases shared
  cases next
  cases last
  cases ran
  exact ⟨_, _, here, rfl, rfl, rfl⟩

/-- Where a part is blank there is no template. -/
theorem of_run_read_combined (here : s.Blank ids blank) (member : blank ∈ ids) {fields : Fields}
    (pieced : fields.look .templateInnards = some (.joinedTemplate ids)) {value : Option Text}
    (ran : run (s.push (.ofFields fields))
      ((Compiler.ofFuel registry fuel).read s.fragments.size .templateInnards) = (.ok value, t)) :
    value = none := by
  cases fuel with
  | zero => cases ran
  | succ fuel =>
    obtain ⟨u, cooked⟩ := of_run_read_push pieced ran
    have marked : ((s.push (.ofFields fields)).setSlot s.fragments.size .templateInnards
        .cooking).Blank ids blank := by
      refine here.of_eq fun id inside => ?_
      have below : id < s.fragments.size := by
        rcases List.mem_cons.1 inside with rfl | inside
        · obtain ⟨f, present, _⟩ := here.lacks
          exact (Array.getElem?_eq_some_iff.1 present).1
        · obtain ⟨_, _, holds⟩ := here.texts id inside
          exact holds.inside
      rw [(touches_setSlot _).frame id (Nat.ne_of_lt below)]
      simp [push, Array.getElem?_push, Nat.ne_of_lt below]
    rw [Fragment.cook] at cooked
    obtain ⟨pieces, v, joined, cooked⟩ := of_run_bind cooked
    obtain rfl := of_run_templatePieces registry fuel (List.Subset.refl ids) marked joined member
    cases cooked
    rfl

end Arguments

end ShellToDeno
