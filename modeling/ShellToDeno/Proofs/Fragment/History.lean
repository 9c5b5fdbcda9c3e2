import ShellToDeno.Proofs.Fragment.Derivation
import ShellToDeno.Proofs.Fragment.Heap

/-!
# Reads forget their history

After any reads of a heap, faults included, a further read gives what it would give on a fresh copy
of the heap (`CompileState.reads_forget_history`). What has been made is kept: were its recipe
another one, no later read would tell. In a heap whose fragments refer only to earlier ones every
read of a form is answered.
-/
namespace ShellToDeno

/-- A read of a form: for what it gives, for whether it gives anything, or for its text. -/
inductive Reading where
  | get (id : FragmentId) (form : Option Form)
  | has (id : FragmentId) (form : Option Form)
  | text (id : FragmentId) (form : Option Form)

/-- The store after a read, whether or not it was a fault. -/
def Reading.after (c : Compiler) (s : CompileState) : Reading → CompileState
  | get id form => (Compile.run s (c.readAny id form)).2
  | has id form => (Compile.run s (return (← c.readAny id form).isSome)).2
  | text id form => (Compile.run s (return (← c.readAny id form).getD [])).2

theorem Reading.exists_after (c : Compiler) (reading : Reading) :
    ∃ id form, ∀ s, reading.after c s = (Compile.run s (c.readAny id form)).2 := by
  cases reading with
  | get id form => exact ⟨id, form, fun s => rfl⟩
  | has id form => exact ⟨id, form, fun s => by rw [after, ← map_eq_pure_bind, Compile.run_map]⟩
  | text id form => exact ⟨id, form, fun s => by rw [after, ← map_eq_pure_bind, Compile.run_map]⟩

namespace CompileState
variable {h s t : CompileState} {id : FragmentId} {form : Option Form}

/-- The store after some reads, one after the other. -/
def afterAll (c : Compiler) (s : CompileState) (history : List Reading) : CompileState :=
  history.foldl (fun s reading => reading.after c s) s

theorem afterAll_slot? (heap : h.IsHeap) (registry : Registry) (fuel : Nat) (history : List Reading)
    (readFrom : ReadFrom h s) {id : FragmentId} {form : Form} {slot : Slot}
    (found : s.slot? id form = some slot) :
    (s.afterAll (Compiler.ofFuel registry fuel) history).slot? id form = some slot := by
  induction history generalizing s with
  | nil => exact found
  | cons reading rest ih =>
    obtain ⟨j, g, same⟩ := reading.exists_after (Compiler.ofFuel registry fuel)
    have answers := Answers.readAny heap registry fuel j g readFrom
    rw [afterAll, List.foldl_cons, same]
    exact ih answers.readFrom (answers.grows found)

theorem afterAll_settled (heap : h.IsHeap) {registry : Registry} {fuel : Nat}
    (enough : 22 * h.fragments.size < fuel) (history : List Reading) (readFrom : ReadFrom h s)
    (settled : Settled h s) :
    ReadFrom h (s.afterAll (Compiler.ofFuel registry fuel) history) ∧
      Settled h (s.afterAll (Compiler.ofFuel registry fuel) history) := by
  induction history generalizing s with
  | nil => exact ⟨readFrom, settled⟩
  | cons reading rest ih =>
    obtain ⟨id, form, same⟩ := reading.exists_after (Compiler.ofFuel registry fuel)
    obtain ⟨readNext, settledNext, _⟩ := readAny_settled heap enough readFrom settled
    rw [afterAll, List.foldl_cons, same]
    exact ih readNext settledNext

theorem IsHeap.slot? (heap : h.IsHeap) (id : FragmentId) (form : Form) :
    h.slot? id form = none := by
  rw [CompileState.slot?, Option.bind_eq_none_iff]
  intro f present
  simp [Fragment.slot?, heap.unread f (Array.mem_of_getElem? present)]

theorem IsHeap.readFrom (heap : h.IsHeap) : ReadFrom h h :=
  ⟨rfl, fun _ => rfl, rfl, fun found => by simp [heap.slot?] at found⟩

theorem IsHeap.settled (heap : h.IsHeap) : Settled h h :=
  fun id form _ cooking => by simp [heap.slot?] at cooking

/-- Puts another recipe in the place of a form's recipe. -/
def replaceRecipe (s : CompileState) (id : FragmentId) (form : Form) (recipe : Recipe) :
    CompileState :=
  { s with fragments := s.fragments.modify id fun f =>
    { f with supplied := (some form, recipe) :: f.supplied } }

section
variable {made : FragmentId} {madeForm : Form} {recipe : Recipe}

theorem getElem?_replaceRecipe (j : FragmentId) :
    (s.replaceRecipe made madeForm recipe).fragments[j]? = s.fragments[j]?.map fun f =>
      if j = made then { f with supplied := (some madeForm, recipe) :: f.supplied } else f := by
  simp only [replaceRecipe, Array.getElem?_modify]
  by_cases h : made = j
  · simp [h]
  · simp [h, Ne.symm h]

theorem slot?_replaceRecipe (j : FragmentId) (g : Form) :
    (s.replaceRecipe made madeForm recipe).slot? j g = s.slot? j g := by
  simp only [slot?, getElem?_replaceRecipe]
  cases s.fragments[j]? with
  | none => rfl
  | some f => by_cases same : j = made <;> simp [same, Fragment.slot?]

theorem setSlot_replaceRecipe (j : FragmentId) (g : Form) (slot : Slot) :
    (s.replaceRecipe made madeForm recipe).setSlot j g slot =
      (s.setSlot j g slot).replaceRecipe made madeForm recipe := by
  have same : ((s.replaceRecipe made madeForm recipe).setSlot j g slot).fragments =
      ((s.setSlot j g slot).replaceRecipe made madeForm recipe).fragments := by
    apply Array.ext_getElem?
    intro k
    simp only [getElem?_replaceRecipe, getElem?_setSlot, Option.map_map]
    refine congrArg (Option.map · _) (funext fun f => ?_)
    by_cases left : k = made <;> by_cases right : k = j <;>
      simp [left, right, Fragment.setSlot] <;> split <;> rfl
  exact congrArg (fun fragments => { s with fragments }) same

theorem query?_replaceRecipe {f : Fragment} (present : s.fragments[made]? = some f)
    (supplied : f.supplies (some madeForm)) {id : FragmentId} {form : Form}
    (other : ¬(id = made ∧ form = madeForm)) :
    (s.replaceRecipe made madeForm recipe).query? id form = s.query? id form := by
  simp only [query?, getElem?_replaceRecipe]
  by_cases same : id = made
  · subst same
    have differ : form ≠ madeForm := fun e => other ⟨rfl, e⟩
    have unchanged (g : Option Form) (h : g ≠ some madeForm) :
        Fragment.recipe? { f with supplied := (some madeForm, recipe) :: f.supplied } g =
          f.recipe? g := by
      simp [Fragment.recipe?, List.lookup_cons, beq_eq_false_iff_ne.2 h]
    have supplies (g : Form) :
        Fragment.supplies { f with supplied := (some madeForm, recipe) :: f.supplied } (some g) =
          f.supplies (some g) := by
      by_cases equal : g = madeForm
      · rw [equal, supplied]
        simp [Fragment.supplies, Fragment.recipe?]
      · rw [Fragment.supplies, unchanged _ (by simpa using equal), Fragment.supplies]
    simp [present, Fragment.query?, unchanged (some form) (by simpa using differ), supplies,
      replaceRecipe]
  · cases s.fragments[id]? <;> simp [same, replaceRecipe]

/-- A query commutes with the change of a recipe if its reads do. -/
theorem query_replaceRecipe (heap : h.IsHeap) {registry : Registry} {fuel : Nat}
    {value : Option Text}
    (reads : ∀ {s : CompileState} id form, ReadFrom h s →
      s.slot? made madeForm = some (.known value) →
      Compile.run (s.replaceRecipe made madeForm recipe)
          ((Compiler.ofFuel registry fuel).readAny id form) =
        Prod.map (fun outcome => outcome) (fun t => t.replaceRecipe made madeForm recipe)
          (Compile.run s ((Compiler.ofFuel registry fuel).readAny id form)))
    (q : Query) (readFrom : ReadFrom h s) (kept : s.slot? made madeForm = some (.known value)) :
    Compile.run (s.replaceRecipe made madeForm recipe) (q.run (Compiler.ofFuel registry fuel)) =
      Prod.map (fun outcome => outcome) (fun t => t.replaceRecipe made madeForm recipe)
        (Compile.run s (q.run (Compiler.ofFuel registry fuel))) := by
  induction q generalizing s with
  | give => rfl
  | missing => rfl
  | ask id form next ih =>
    have answers := Answers.readAny heap registry fuel id form readFrom
    rw [Query.run, Compile.run_bind, Compile.run_bind, reads id form readFrom kept]
    generalize Compile.run s ((Compiler.ofFuel registry fuel).readAny id form) = result at answers ⊢
    obtain ⟨outcome, t⟩ := result
    cases outcome with
    | error => rfl
    | ok answer => exact ih answer answers.readFrom (answers.grows kept)

/-- Reading commutes with putting another recipe in the place of one that has been followed. -/
theorem readAny_replaceRecipe (heap : h.IsHeap) (registry : Registry) (fuel : Nat)
    {value : Option Text} (supplied : ∀ f, h.fragments[made]? = some f → f.supplies (some madeForm))
    (id : FragmentId) (form : Option Form) (readFrom : ReadFrom h s)
    (kept : s.slot? made madeForm = some (.known value)) :
    Compile.run (s.replaceRecipe made madeForm recipe)
        ((Compiler.ofFuel registry fuel).readAny id form) =
      Prod.map (fun outcome => outcome) (fun t => t.replaceRecipe made madeForm recipe)
        (Compile.run s ((Compiler.ofFuel registry fuel).readAny id form)) := by
  induction fuel generalizing s id form with
  | zero => rfl
  | succ fuel ih =>
    change Compile.run _ (Fragment.read (Compiler.ofFuel registry fuel) id form) =
      Prod.map _ _ (Compile.run _ (Fragment.read (Compiler.ofFuel registry fuel) id form))
    cases form with
    | none => rfl
    | some form =>
    cases present : s.fragments[id]? with
    | none =>
      rw [Fragment.run_read_missing present, Fragment.run_read_missing]
      · rfl
      · rw [getElem?_replaceRecipe, present, Option.map_none]
    | some f =>
    cases found : s.slot? id form with
    | some slot =>
      cases slot with
      | known =>
        rw [Fragment.run_read_known found,
          Fragment.run_read_known ((slot?_replaceRecipe _ _).trans found)]
        rfl
      | cooking =>
        rw [Fragment.run_read_cooking found,
          Fragment.run_read_cooking ((slot?_replaceRecipe _ _).trans found)]
        rfl
    | none =>
      have other : ¬(id = made ∧ form = madeForm) := by
        rintro ⟨rfl, rfl⟩
        exact Option.some_ne_none _ (kept.symm.trans found)
      obtain ⟨g, given, _⟩ := readFrom.present present
      obtain ⟨q, asked⟩ := heap.query? given form
      have asks : s.query? id form = some q := (readFrom.query? id form).trans asked
      obtain ⟨k, keeper, suppliedHere⟩ : ∃ k, s.fragments[made]? = some k ∧
          k.supplies (some madeForm) := by
        obtain ⟨k, keeper, _⟩ := Option.bind_eq_some_iff.1 kept
        obtain ⟨f, given, same⟩ := readFrom.present keeper
        have suppliedThere := supplied f given
        rw [Fragment.supplies, Fragment.recipe?, same] at suppliedThere
        exact ⟨k, keeper, suppliedThere⟩
      have marked : ReadFrom h (s.setSlot id form .cooking) := readFrom.setSlot (by simp)
      rw [Fragment.run_read_new present found, Fragment.run_make_query asks,
        Fragment.run_read_new (by rw [getElem?_replaceRecipe, present, Option.map_some])
          ((slot?_replaceRecipe _ _).trans found),
        Fragment.run_make_query ((query?_replaceRecipe keeper suppliedHere other).trans asks),
        setSlot_replaceRecipe,
        query_replaceRecipe heap ih q marked (slot?_setSlot_of_new found kept)]
      generalize Compile.run (s.setSlot id form .cooking)
        (q.run (Compiler.ofFuel registry fuel)) = result
      obtain ⟨outcome, t⟩ := result
      cases outcome with
      | error => rfl
      | ok value =>
        simp only [Prod.map, getElem?_replaceRecipe]
        cases t.fragments[id]? with
        | none => rfl
        | some => simp [setSlot_replaceRecipe]

theorem afterAll_replaceRecipe (heap : h.IsHeap) (registry : Registry) (fuel : Nat)
    {value : Option Text} (supplied : ∀ f, h.fragments[made]? = some f → f.supplies (some madeForm))
    (history : List Reading) (readFrom : ReadFrom h s)
    (kept : s.slot? made madeForm = some (.known value)) :
    (s.replaceRecipe made madeForm recipe).afterAll (Compiler.ofFuel registry fuel) history =
      (s.afterAll (Compiler.ofFuel registry fuel) history).replaceRecipe made madeForm recipe := by
  induction history generalizing s with
  | nil => rfl
  | cons reading rest ih =>
    obtain ⟨id, form, same⟩ := reading.exists_after (Compiler.ofFuel registry fuel)
    have answers := Answers.readAny heap registry fuel id form readFrom
    simp only [afterAll, List.foldl_cons, same]
    rw [readAny_replaceRecipe heap registry fuel supplied id form readFrom kept]
    exact ih answers.readFrom (answers.grows kept)

end

end CompileState

/-- The recipe reads forms of fragments before `id` only. -/
def Recipe.ReadsBefore (labels : Array FragmentId) (id : FragmentId) : Recipe → Prop
  | same earlier _ => earlier < id
  | labelled label form => ∃ earlier, labels[label]? = some earlier ∧ earlier < id ∧ form.isSome
  | _ => True

/-- Each fragment refers only to earlier ones. -/
def CompileState.Acyclic (h : CompileState) : Prop :=
  ∀ (id : FragmentId) f, h.fragments[id]? = some f →
    ∀ entry ∈ f.supplied, entry.2.ReadsBefore h.labels id

namespace Query

/-- A query whose reads all give something gives something. -/
theorem Asks.exists_eval {h : CompileState} {q : Query}
    (asks : q.Asks fun id form => ∃ value, h.Gives id form value) :
    ∃ n value, q.eval (h.value? n) = some value := by
  induction asks with
  | give value => exact ⟨0, value, rfl⟩
  | ask here _ ih =>
    obtain ⟨answer, n, first⟩ := here
    obtain ⟨m, value, second⟩ := ih answer
    refine ⟨max n m, value, ?_⟩
    rw [eval, CompileState.value?_of_le (Nat.le_max_left n m) first]
    exact eval_mono (fun _ _ _ => CompileState.value?_of_le (Nat.le_max_right n m)) second

end Query

namespace CompileState
variable {h s : CompileState} {id : FragmentId}

theorem exists_gives_of_asks {form : Form} {q : Query} (asks : h.query? id form = some q)
    (answered : q.Asks fun id form => ∃ value, h.Gives id form value) :
    ∃ value, h.Gives id (some form) value := by
  obtain ⟨n, value, found⟩ := answered.exists_eval
  exact ⟨value, n + 1, by rw [value?, asks]; exact found⟩

theorem Acyclic.exists_gives_supplied (acyclic : h.Acyclic) (heap : h.IsHeap) {f : Fragment}
    (present : h.fragments[id]? = some f)
    (before : ∀ j < id, ∀ g : Form, ∃ value, h.Gives j (some g) value) {form : Form}
    {recipe : Recipe} (given : f.recipe? (some form) = some recipe) :
    ∃ value, h.Gives id (some form) value := by
  have member := Fragment.mem_of_recipe? given
  have forwards := heap.forwards f (Array.mem_of_getElem? present) _ member
  have reads := acyclic id f present _ member
  have asks : h.query? id form = recipe.query? h.labels := by
    simp [query?, Fragment.query?, present, given]
  cases recipe with
  | text | absent => exact exists_gives_of_asks asks (.give _)
  | same j g => exact exists_gives_of_asks asks (.ask (before j reads g) fun _ => .give _)
  | labelled label g =>
    obtain ⟨j, labelled, less, known⟩ := reads
    obtain ⟨g, rfl⟩ := Option.isSome_iff_exists.1 known
    rw [Recipe.query?, labelled] at asks
    exact exists_gives_of_asks asks (.ask (before j less g) fun _ => .give _)
  | _ => exact forwards.elim

/-- Where references only go back, every form of every fragment gives something. -/
theorem Acyclic.exists_gives (acyclic : h.Acyclic) (heap : h.IsHeap) {f : Fragment}
    (present : h.fragments[id]? = some f) (form : Form) : ∃ value,
    h.Gives id (some form) value := by
  induction id using Nat.strongRecOn generalizing f form with
  | ind id earlier =>
    have inside : id < h.fragments.size := (Array.getElem?_eq_some_iff.1 present).1
    have before (j : FragmentId) (less : j < id) (g : Form) : ∃ value, h.Gives j (some g) value :=
      earlier j less (Array.getElem?_eq_getElem (Nat.lt_trans less inside)) g
    induction place : form.rank (fun g => f.supplies (some g)) using Nat.strongRecOn
      generalizing form with
    | ind place lower =>
      cases given : f.recipe? (some form) with
      | some recipe => exact acyclic.exists_gives_supplied heap present before given
      | none =>
        have asks : h.query? id form = some (form.derivation id fun g => f.supplies (some g)) := by
          simp [query?, Fragment.query?, present, given]
        have derived : f.supplies (some form) = false := by simp [Fragment.supplies, given]
        refine exists_gives_of_asks asks ((Form.derivation_asks _ derived).imp ?_)
        rintro j asked ⟨rfl, g, rfl, less⟩
        exact lower _ (place ▸ less) g rfl

/-- What a read of a heap gives does not depend on the reads before it, whichever of them were
faults. It has an outcome, the same with all fuel that is enough for the forms of the heap. A form
that has been made is kept: later reads of it leave the store as it is, and a recipe that it was
made by might as well have been any other. If references only go back, reads of forms are no
faults. -/
theorem reads_forget_history (heap : h.IsHeap) (registry : Registry) {fuel : Nat}
    (enough : 22 * h.fragments.size < fuel) (history : List Reading) :
    let c := Compiler.ofFuel registry fuel
    let s := h.afterAll c history
    (∀ id form, (Compile.run s (c.readAny id form)).1 ≠ .error .exhausted ∧
      ∀ more, 22 * h.fragments.size < more →
        (Compile.run s (c.readAny id form)).1.toOption =
          (Compile.run h ((Compiler.ofFuel registry more).readAny id form)).1.toOption) ∧
    (∀ id form value, s.slot? id form = some (.known value) → ∀ further,
      Compile.run (s.afterAll c further) (c.read id form) = (.ok value, s.afterAll c further) ∧
      ((∃ f, h.fragments[id]? = some f ∧ f.supplies (some form)) → ∀ recipe other asked,
        (Compile.run ((s.replaceRecipe id form recipe).afterAll c further)
            (c.readAny other asked)).1 =
          (Compile.run (s.afterAll c further) (c.readAny other asked)).1)) ∧
    (h.Acyclic → ∀ id < h.fragments.size, ∀ form, ∃ value,
      (Compile.run s (c.read id form)).1 = .ok value) := by
  intro c s
  obtain ⟨readFrom, settled⟩ : ReadFrom h s ∧ Settled h s :=
    afterAll_settled heap enough history heap.readFrom heap.settled
  refine ⟨fun id form => ⟨(readAny_settled heap enough readFrom settled).2.2,
    fun more plenty => ?_⟩,
    fun id form value known further => ⟨?_, ?_⟩, fun acyclic id inside form => ?_⟩
  · refine Option.ext fun value => ?_
    rw [toOption_readAny heap enough readFrom settled,
      toOption_readAny heap plenty heap.readFrom heap.settled]
  · have kept : (s.afterAll c further).slot? id form = some (.known value) :=
      afterAll_slot? heap registry fuel further readFrom known
    obtain ⟨fuel, rfl⟩ := Nat.exists_eq_add_of_lt (Nat.zero_lt_of_lt enough)
    exact Fragment.run_read_known kept
  · rintro ⟨f, present, supplied⟩ recipe other asked
    have here (g : Fragment) (found : h.fragments[id]? = some g) : g.supplies (some form) := by
      obtain rfl := Option.some.inj (present.symm.trans found)
      exact supplied
    have later : ReadFrom h (s.afterAll c further) :=
      (afterAll_settled heap enough further readFrom settled).1
    rw [afterAll_replaceRecipe heap registry fuel here further readFrom known,
      readAny_replaceRecipe heap registry fuel here other asked later
        (afterAll_slot? heap registry fuel further readFrom known)]
    rfl
  · obtain ⟨value, gives⟩ :=
      acyclic.exists_gives heap (Array.getElem?_eq_getElem inside) form
    have found : (Compile.run s (c.readAny id (some form))).1.toOption = some value :=
      (toOption_readAny heap enough readFrom settled value).2 gives
    refine ⟨value, ?_⟩
    change (Compile.run s (c.readAny id (some form))).1 = _
    generalize (Compile.run s (c.readAny id (some form))).1 = outcome at found ⊢
    cases outcome with
    | ok v => exact congrArg Except.ok (Option.some.inj found)
    | error => cases found

/-- A store of some fragments that supply the given forms, the first fragment labelled. -/
def ofRecords (records : List Fields) : CompileState :=
  { empty with fragments := (records.map Fragment.ofFields).toArray, labels := #[0] }

/-- Two fragments that ask each other, and two of which the later asks the earlier. -/
theorem reads_forget_history_pair :
    let loop := ofRecords [[(.value, .same 1 .condition)],
      [(.condition, .labelled 0 (some .value))]]
    let line := ofRecords [[(.pureCommand, .text "ls")], [(.value, .labelled 0 (some .plainCall))]]
    let c := Compiler.ofFuel .standard 45
    loop.IsHeap ∧ line.IsHeap ∧ line.Acyclic ∧
    (Compile.run (loop.afterAll c [.get 0 (some .value)])
      (c.readAny 1 (some .condition))).1.toOption =
      (Compile.run loop (c.readAny 1 (some .condition))).1.toOption ∧
    (line.afterAll c [.has 1 (some .value)]).slot? 1 .value = some (.known (some (Dax.call "ls"))) ∧
    (Compile.run
        (((line.afterAll c [.has 1 (some .value)]).replaceRecipe 1 .value .absent).afterAll c
          [.text 0 none]) (c.readAny 1 (some .condition))).1 =
      (Compile.run ((line.afterAll c [.has 1 (some .value)]).afterAll c [.text 0 none])
        (c.readAny 1 (some .condition))).1 ∧
    ∃ value, (Compile.run (line.afterAll c [.has 1 (some .value)]) (c.read 0 .statement)).1 =
      .ok value := by
  intro loop line c
  have loopHeap : loop.IsHeap := by
    constructor <;> simp [loop, ofRecords, Fragment.ofFields, Recipe.Forwards]
  have lineHeap : line.IsHeap := by
    constructor <;> simp [line, ofRecords, Fragment.ofFields, Recipe.Forwards]
  have acyclic : line.Acyclic := by
    intro id f present
    match id with
    | 0 | 1 =>
      simp [line, ofRecords, Fragment.ofFields] at present
      simp [← present, line, ofRecords, Recipe.ReadsBefore]
    | id + 2 => simp [line, ofRecords] at present
  have known : (line.afterAll c [.has 1 (some .value)]).slot? 1 .value =
      some (.known (some (Dax.call "ls"))) := by decide +kernel
  have enough : 22 * loop.fragments.size < 45 := by decide
  have enoughToo : 22 * line.fragments.size < 45 := by decide
  have cyclic := reads_forget_history loopHeap .standard enough [.get 0 (some .value)]
  have straight := reads_forget_history lineHeap .standard enoughToo [.has 1 (some .value)]
  have supplied : ∃ f, line.fragments[1]? = some f ∧ f.supplies (some .value) := ⟨_, rfl, by decide⟩
  exact ⟨loopHeap, lineHeap, acyclic, (cyclic.1 1 (some .condition)).2 45 enough, known,
    (straight.2.1 1 .value _ known [.text 0 none]).2 supplied .absent 1 (some .condition),
    straight.2.2 acyclic 0 (by decide) .statement⟩

end CompileState

end ShellToDeno
