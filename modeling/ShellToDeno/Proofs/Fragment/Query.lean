import ShellToDeno.Fragment.Record

/-!
# What reading a form does, step by step

A step of the work run in a state gives a result and the state after it; `run_bind` and the lemmas
around it say how. The reads that a form is made of are a finite query: `Form.derivation` is the
query of a form that is not supplied, and `run_derive` says that deriving the form asks exactly this
query. `Fragment.run_make` and `Fragment.run_read` then say how a read goes through the slot of its
form.
-/
namespace ShellToDeno

namespace Compile
variable {α β : Type} {s : CompileState}

@[simp] theorem run_pure (a : α) : run s (pure a) = (.ok a, s) := rfl

@[simp] theorem run_throw (fault : Fault) : run s (throw fault : Compile α) =
    (.error fault, s) := rfl

@[simp] theorem run_get : run s (get : Compile CompileState) = (.ok s, s) := rfl

@[simp] theorem run_modify (f : CompileState → CompileState) :
    run s (modify f : Compile PUnit) = (.ok ⟨⟩, f s) := rfl

theorem run_bind (x : Compile α) (f : α → Compile β) :
    run s (x >>= f) = match run s x with
      | (.ok a, t) => run t (f a)
      | (.error fault, t) => (.error fault, t) := by
  simp only [run, ExceptT.run_bind, StateT.run_bind]
  rcases StateT.run (ExceptT.run x) s with ⟨outcome, t⟩
  cases outcome <;> rfl

theorem run_bind_ok {x : Compile α} {a : α} {t : CompileState} (h : run s x = (.ok a, t))
    (f : α → Compile β) : run s (x >>= f) = run t (f a) := by rw [run_bind, h]

/-- A step that ended well went through a result of its first part. -/
theorem of_run_bind {u : CompileState} {x : Compile α} {f : α → Compile β} {b : β}
    (ran : run s (x >>= f) = (.ok b, u)) :
    ∃ a t, run s x = (.ok a, t) ∧ run t (f a) = (.ok b, u) := by
  rw [run_bind] at ran
  generalize run s x = first at ran
  obtain ⟨outcome, t⟩ := first
  cases outcome with
  | error fault => cases ran
  | ok a => exact ⟨a, t, rfl, ran⟩

theorem run_map (f : α → β) (x : Compile α) :
    run s (f <$> x) = ((run s x).1.map f, (run s x).2) := by
  rw [map_eq_pure_bind, run_bind]
  rcases run s x with ⟨outcome, t⟩
  cases outcome <;> rfl

theorem run_tryCatch (x : Compile α) (f : Fault → Compile α) :
    run s (tryCatch x f) = match run s x with
      | (.ok a, t) => (.ok a, t)
      | (.error fault, t) => run t (f fault) := by
  change StateT.run (ExceptT.run (tryCatch x f)) s = _
  rcases h : run s x with ⟨outcome, t⟩
  simp only [run, ExceptT.run] at h
  simp only [tryCatch, tryCatchThe, MonadExceptOf.tryCatch, ExceptT.tryCatch, ExceptT.run,
    ExceptT.mk, StateT.run_bind, h]
  cases outcome <;> rfl

theorem run_fragment (id : FragmentId) :
    run s (fragment id) = match s.fragments[id]? with
      | some f => (.ok f, s)
      | none => (.error .outOfRange, s) := by
  simp only [fragment, run_bind, run_get]
  cases s.fragments[id]? <;> rfl

theorem run_fragment_some {id : FragmentId} {f : Fragment} (h : s.fragments[id]? = some f) :
    run s (fragment id) = (.ok f, s) := by rw [run_fragment, h]

theorem run_supplies {id : FragmentId} {f : Fragment} (h : s.fragments[id]? = some f)
    (form : Form) :
    run s (supplies id form) = (.ok (f.supplies (some form)), s) := by
  rw [supplies, run_bind_ok (run_fragment_some h), run_pure]

end Compile

namespace Fragment
variable {f : Fragment} {form g : Form} {slot : Slot}

theorem mem_of_recipe? {form : Option Form} {recipe : Recipe} (h : f.recipe? form = some recipe) :
    (form, recipe) ∈ f.supplied := by
  obtain ⟨before, after, split, _⟩ := List.lookup_eq_some_iff.1 h
  simp [split]

@[simp] theorem supplied_setSlot : (f.setSlot form slot).supplied = f.supplied := rfl

theorem slot?_setSlot_self : (f.setSlot form slot).slot? form = some slot := by
  simp [slot?, setSlot]

theorem slot?_setSlot_of_ne (h : g ≠ form) : (f.setSlot form slot).slot? g = f.slot? g := by
  have rest (slots : List (Form × Slot)) :
      (slots.filter fun entry => entry.1 != form).lookup g = slots.lookup g := by
    induction slots with
    | nil => rfl
    | cons entry rest ih =>
      obtain ⟨key, kept⟩ := entry
      by_cases same : key = form
      · simp [same, List.lookup_cons, ih, beq_eq_false_iff_ne.2 h]
      · simp [same, List.lookup_cons, ih]
  simp [slot?, setSlot, List.lookup_cons, beq_eq_false_iff_ne.2 h, rest]

end Fragment

namespace CompileState

/-- What is known of a form of a fragment. -/
def slot? (s : CompileState) (id : FragmentId) (form : Form) : Option Slot :=
  s.fragments[id]?.bind (·.slot? form)

def setSlot (s : CompileState) (id : FragmentId) (form : Form) (slot : Slot) : CompileState :=
  { s with fragments := s.fragments.modify id (·.setSlot form slot) }

variable {s : CompileState} {id : FragmentId} {form : Form} {slot : Slot}

theorem getElem?_setSlot (j : FragmentId) :
    (s.setSlot id form slot).fragments[j]? =
      s.fragments[j]?.map fun f => if j = id then f.setSlot form slot else f := by
  simp only [setSlot, Array.getElem?_modify]
  by_cases h : id = j
  · simp [h]
  · simp [h, Ne.symm h]

theorem slot?_setSlot_self {f : Fragment} (h : s.fragments[id]? = some f) :
    (s.setSlot id form slot).slot? id form = some slot := by
  simp [slot?, getElem?_setSlot, h, Fragment.slot?_setSlot_self]

theorem slot?_setSlot_of_ne {j : FragmentId} {g : Form} (h : ¬(j = id ∧ g = form)) :
    (s.setSlot id form slot).slot? j g = s.slot? j g := by
  simp only [slot?, getElem?_setSlot]
  cases s.fragments[j]? with
  | none => rfl
  | some f =>
    by_cases same : j = id
    · simp [same, Fragment.slot?_setSlot_of_ne fun e => h ⟨same, e⟩]
    · simp [same]

theorem slot?_setSlot_of_new {j : FragmentId} {g : Form} {x : Slot} (new : s.slot? id form = none)
    (found : s.slot? j g = some x) : (s.setSlot id form slot).slot? j g = some x := by
  rw [slot?_setSlot_of_ne, found]
  rintro ⟨rfl, rfl⟩
  exact Option.some_ne_none x (found.symm.trans new)

theorem of_slot?_setSlot {j : FragmentId} {g : Form} {x : Slot}
    (h : (s.setSlot id form slot).slot? j g = some x) :
    (j = id ∧ g = form) ∧ x = slot ∨ s.slot? j g = some x := by
  by_cases same : j = id ∧ g = form
  · obtain ⟨rfl, rfl⟩ := same
    obtain ⟨f, present, _⟩ := Option.bind_eq_some_iff.1 h
    rw [getElem?_setSlot] at present
    obtain ⟨f, present, _⟩ := Option.map_eq_some_iff.1 present
    rw [slot?_setSlot_self present] at h
    exact .inl ⟨⟨rfl, rfl⟩, (Option.some.inj h).symm⟩
  · exact .inr (slot?_setSlot_of_ne same ▸ h)

end CompileState

/-- The reads that a value is made of, each chosen by what the ones before it gave. -/
inductive Query where
  | give (value : Option Text)
  /-- Nobody is there to be asked. -/
  | missing
  | ask (id : FragmentId) (form : Option Form) (next : Option Text → Query)

namespace Query

def run (c : Compiler) : Query → Compile (Option Text)
  | give value => return value
  | missing => throw .outOfRange
  | ask id form next => do (next (← c.readAny id form)).run c

/-- The answer, if all that is asked for can be looked up. -/
def eval (look : FragmentId → Option Form → Option (Option Text)) : Query → Option (Option Text)
  | give value => some value
  | missing => none
  | ask id form next => (look id form).bind fun value => (next value).eval look

def via (id : FragmentId) (form : Form) (f : Text → Text) : Query :=
  ask id (some form) fun value => give (value.map f)

/-- The first of some forms that a fragment has. -/
def first (id : FragmentId) : List Form → Query
  | [] => give none
  | form :: rest => ask id (some form) fun
    | some value => give (some value)
    | none => first id rest

theorem eval_mono {look more : FragmentId → Option Form → Option (Option Text)}
    (h : ∀ id form value, look id form = some value → more id form = some value) {q : Query}
    {value : Option Text} (found : q.eval look = some value) : q.eval more = some value := by
  induction q with
  | give => exact found
  | missing => simp [eval] at found
  | ask id form next ih =>
    obtain ⟨answer, asked, found⟩ := Option.bind_eq_some_iff.1 found
    simp [eval, h _ _ _ asked, ih answer found]

end Query

/-- How a form is derived in a fragment that supplies the `given` forms. -/
def Form.derivation (id : FragmentId) (given : Form → Bool) : Form → Query
  | singleQuoted => .via id quotedInnards fun v => "'" ++ v ++ "'"
  | redirectedCommand => .ask id (some pureCommand) .give
  | chainedCommand => .ask id (some redirectedCommand) .give
  | plainCall => .via id chainedCommand Dax.call
  | redirectedCall => .ask id (some plainCall) .give
  | textCall => .via id redirectedCall (· ++ ".text()")
  | captureCall => .ask id (some chainedCommand) fun
    | some v => .give (some (Dax.captureStart ++ v ++ "`"))
    | none => .ask id (some redirectedCall) fun call =>
      .give ((call.bind Dax.callBody?).map (Dax.captureStart ++ ·))
  | success => .via id redirectedCall fun v => "((" ++ v ++ ").code == 0)"
  | failure => .via id redirectedCall fun v => "((" ++ v ++ ").code != 0)"
  | templateInnards => .via id textCall Js.substitution
  | template => .via id templateInnards Js.template
  | stringValue =>
    let others := .first id [template, textCall]
    if given number then .ask id (some number) fun
      | some v => .give (some (Js.stringLiteral v))
      | none => others
    else others
  | number => .ask id (some stringValue) fun v => .give (v.bind quotedNumber?)
  | value => .first id [array, number, stringValue, success]
  | condition => .first id [success, value]
  | negation =>
    let others := .ask id (some failure) fun
      | some v => .give (some v)
      | none => .via id condition fun v => "!(" ++ v ++ ")"
    if given condition then .ask id (some condition) fun
      | some v => .give (some ("!(" ++ v ++ ")"))
      | none => others
    else others
  | statement => .first id [plainCall, value]
  | argument | quotedInnards | pureCommand | array | argumentList => .give none

/-- One form of each fragment, none if one of them lacks it. -/
def Query.each (form : Form) (finish : List Text → Text) : List FragmentId → Query
  | [] => .give (some (finish []))
  | id :: rest => .ask id (some form) fun
    | none => .give none
    | some value => each form (fun values => finish (value :: values)) rest

/-- The query of a recipe that only reads. -/
def Recipe.query? (labels : Array FragmentId) : Recipe → Option Query
  | text value => some (.give (some value))
  | absent => some (.give none)
  | same id form => some (.ask id (some form) .give)
  | labelled label form => some (match labels[label]? with
    | some id => .ask id form .give
    | none => .missing)
  | negated id => some (.via id .pureCommand ("! " ++ ·))
  | piped ids => some (.each .redirectedCommand (Text.join " | ") ids)
  | joinedCondition left operator right =>
    some (.via right .condition fun v => "(" ++ left ++ ") " ++ operator ++ " (" ++ v ++ ")")
  | _ => none

namespace Query
variable (c : Compiler) (id : FragmentId) (form : Form)

theorem run_give_ask : (ask id (some form) give).run c = c.read id form := by
  simp [run, Compiler.read]

theorem run_first (forms : List Form) : (first id forms).run c = c.readFirst id forms := by
  induction forms with
  | nil => rfl
  | cons form rest ih =>
    simp only [first, run, Compiler.readFirst]
    refine bind_congr fun value => ?_
    cases value with
    | some => rfl
    | none => exact ih

theorem run_each (finish : List Text → Text) (ids : List FragmentId) :
    (each form finish ids).run c = Option.map finish <$> Arguments.readEach c form ids := by
  induction ids generalizing finish with
  | nil => simp [each, run, Arguments.readEach]
  | cons id rest ih =>
    simp only [each, run, Arguments.readEach, map_bind]
    refine bind_congr fun value => ?_
    cases value with
    | none => simp [run]
    | some text => simp [ih, Option.map_map, Function.comp_def]

end Query

theorem Fragment.run_cook {c : Compiler} {s : CompileState} {recipe : Recipe} {q : Query}
    (found : recipe.query? s.labels = some q) :
    Compile.run s (cook c recipe) = Compile.run s (q.run c) := by
  cases recipe <;> simp only [Recipe.query?, Option.some.injEq, reduceCtorEq] at found
    <;> subst found
  case labelled label form =>
    simp only [cook, Compile.run_bind_ok Compile.run_get]
    cases s.labels[label]? with
    | none => rfl
    | some id => simp [Query.run]
  case same id form => exact congrArg _ (Query.run_give_ask _ _ _).symm
  case piped ids => rw [Query.run_each, cook, map_eq_pure_bind]
  all_goals rfl

theorem Fragment.run_derive {c : Compiler} {s : CompileState} {id : FragmentId} {f : Fragment}
    (present : s.fragments[id]? = some f) (form : Form) :
    Compile.run s (derive c id form) =
      Compile.run s ((form.derivation id fun g => f.supplies (some g)).run c) := by
  cases form
  case stringValue =>
    simp only [derive, Form.derivation, Compile.run_bind_ok (Compile.run_supplies present _)]
    split
    · simp only [Query.run]
      refine congrArg _ (bind_congr fun value => ?_)
      cases value with
      | some => rfl
      | none => exact (Query.run_first _ _ _).symm
    · exact congrArg _ (Query.run_first _ _ _).symm
  case negation =>
    have others : (Query.ask id (some .failure) fun
        | some v => .give (some v)
        | none => .via id .condition fun v => "!(" ++ v ++ ")").run c =
        (do match ← c.read id .failure with
          | some v => return some v
          | none => via c id .condition fun v => "!(" ++ v ++ ")") := by
      refine bind_congr fun value => ?_
      cases value <;> rfl
    simp only [derive, Form.derivation, Compile.run_bind_ok (Compile.run_supplies present _)]
    split
    · simp only [Query.run]
      refine congrArg _ (bind_congr fun value => ?_)
      cases value with
      | some => rfl
      | none => exact others.symm
    · exact congrArg _ others.symm
  case captureCall =>
    refine congrArg _ (bind_congr fun value => ?_)
    cases value <;> rfl
  all_goals first
    | rfl
    | exact congrArg _ (Query.run_first _ _ _).symm
    | exact congrArg _ (Query.run_give_ask _ _ _).symm

namespace Fragment
variable {c : Compiler} {s : CompileState} {id : FragmentId} {f : Fragment} {form : Form}

/-- What makes a form: its recipe, or else its derivation. -/
def making (c : Compiler) (id : FragmentId) (f : Fragment) (form : Form) : Compile (Option Text) :=
  match f.recipe? (some form) with
  | some recipe => cook c recipe
  | none => derive c id form

theorem run_setSlot (present : s.fragments[id]? = some f) (slot : Slot) :
    Compile.run s (Compile.setFragment id (f.setSlot form slot)) =
      (.ok (), s.setSlot id form slot) := by
  have same : s.fragments.setIfInBounds id (f.setSlot form slot) =
      s.fragments.modify id (·.setSlot form slot) := by
    apply Array.ext_getElem?
    intro j
    rw [Array.getElem?_modify, Array.getElem?_setIfInBounds]
    split
    · next equal =>
      obtain ⟨inside, found⟩ := Array.getElem?_eq_some_iff.1 present
      subst equal
      simp [inside, found]
    · rfl
  simp [Compile.setFragment, CompileState.setSlot, same]

/-- A form that is read for the first time is marked, made and kept. -/
theorem run_make (present : s.fragments[id]? = some f) :
    Compile.run s (make c id form) =
      match Compile.run (s.setSlot id form .cooking) (making c id f form) with
      | (.ok value, t) => match t.fragments[id]? with
        | some _ => (.ok value, t.setSlot id form (.known value))
        | none => (.error .outOfRange, t)
      | (.error fault, t) => (.error fault, t) := by
  have marked : (s.setSlot id form .cooking).fragments[id]? = some (f.setSlot form .cooking) := by
    simp [CompileState.getElem?_setSlot, present]
  rw [make, Compile.run_bind_ok (Compile.run_fragment_some present),
    Compile.run_bind_ok (run_setSlot present _),
    Compile.run_bind_ok (Compile.run_fragment_some marked)]
  have split : Compile.run (s.setSlot id form .cooking) (making c id f form >>= fun value => do
      Compile.setFragment id ((← Compile.fragment id).setSlot form (.known value))
      return value) = _ := Compile.run_bind _ _
  refine Eq.trans ?_ (split.trans ?_)
  · change Compile.run _ (match f.recipe? (some form) with
      | some _ => _
      | none => _) = _
    rw [making]
    cases f.recipe? (some form) <;> rfl
  rcases Compile.run (s.setSlot id form .cooking) (making c id f form) with ⟨outcome, t⟩
  cases outcome with
  | error => rfl
  | ok value =>
    cases kept : t.fragments[id]? with
    | none => simp [Compile.run_bind, Compile.run_fragment, kept]
    | some g =>
      simp only [Compile.run_bind_ok (Compile.run_fragment_some kept),
        Compile.run_bind_ok (run_setSlot kept _), Compile.run_pure, kept]

theorem run_read_missing (missing : s.fragments[id]? = none) :
    Compile.run s (read c id (some form)) = (.error .outOfRange, s) := by
  simp [read, Compile.run_bind, Compile.run_fragment, missing]

theorem run_read_known {value : Option Text} (known : s.slot? id form = some (.known value)) :
    Compile.run s (read c id (some form)) = (.ok value, s) := by
  obtain ⟨f, present, known⟩ := Option.bind_eq_some_iff.1 known
  rw [read, Compile.run_bind_ok (Compile.run_fragment_some present), known, Compile.run_pure]

theorem run_read_cooking (cooking : s.slot? id form = some .cooking) :
    Compile.run s (read c id (some form)) =
      (.error (.violated .invariant ("form " ++ form.name ++ " depends on itself")), s) := by
  obtain ⟨f, present, cooking⟩ := Option.bind_eq_some_iff.1 cooking
  rw [read, Compile.run_bind_ok (Compile.run_fragment_some present), cooking, Compile.run_throw]

theorem run_read_new (present : s.fragments[id]? = some f) (new : s.slot? id form = none) :
    Compile.run s (read c id (some form)) = Compile.run s (make c id form) := by
  have unread : f.slot? form = none := by simpa [CompileState.slot?, present] using new
  rw [read, Compile.run_bind_ok (Compile.run_fragment_some present), unread]

/-- What is asked to make a form, if making it only reads. -/
def query? (labels : Array FragmentId) (id : FragmentId) (f : Fragment) (form : Form) :
    Option Query :=
  match f.recipe? (some form) with
  | some recipe => recipe.query? labels
  | none => some (form.derivation id fun g => f.supplies (some g))

theorem run_making {q : Query} (present : s.fragments[id]? = some f)
    (found : f.query? s.labels id form = some q) :
    Compile.run s (making c id f form) = Compile.run s (q.run c) := by
  rw [query?] at found
  rw [making]
  split at found
  · exact run_cook found
  · obtain rfl := Option.some.inj found
    exact run_derive present form

end Fragment

/-- What is asked to make a form of a fragment in the store. -/
def CompileState.query? (s : CompileState) (id : FragmentId) (form : Form) : Option Query :=
  s.fragments[id]?.bind fun f => f.query? s.labels id form

/-- A form that only reads is marked, asked for and kept. -/
theorem Fragment.run_make_query {c : Compiler} {s : CompileState} {id : FragmentId} {form : Form}
    {q : Query} (asks : s.query? id form = some q) :
    Compile.run s (make c id form) =
      match Compile.run (s.setSlot id form .cooking) (q.run c) with
      | (.ok value, t) => match t.fragments[id]? with
        | some _ => (.ok value, t.setSlot id form (.known value))
        | none => (.error .outOfRange, t)
      | (.error fault, t) => (.error fault, t) := by
  obtain ⟨f, present, asks⟩ := Option.bind_eq_some_iff.1 asks
  have marked : (s.setSlot id form .cooking).fragments[id]? = some (f.setSlot form .cooking) := by
    simp [CompileState.getElem?_setSlot, present]
  rw [run_make present, ← run_making marked asks]
  rfl

end ShellToDeno
