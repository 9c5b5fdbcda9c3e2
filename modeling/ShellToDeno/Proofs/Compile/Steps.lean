import ShellToDeno.Compile.Node
import ShellToDeno.Proofs.Compile.Shape
import ShellToDeno.Proofs.Vocabulary.Says

/-!
# Steps of two compilers

`Ledger` gathers what is followed along the steps of a compiler: which states are fine, what the
work on a state may lead to, and what is known there of fragments and of nodes. `Agree L s x y Q`
says that the steps `x` and `y`, run in a fine state `s`, have the same outcome and leave the same
state, that this state is fine again and comes from `s` by work that the ledger allows, and that a
result satisfies `Q` in it. There is one rule for each way of putting steps together, and one for
each step that touches the state.

A strict ledger also follows the words of texts: what is written is accounted for by the features
that have been noted until then (`Ledger.Says`).

The compiler is gone through once, for any ledger. For that of stores (`Ledger.store`) this says
that the store stays sound, for that of levels (`Ledger.levels`) that compilers with enough fuel
agree, and for that of words (`Ledger.words`) that whatever helper a program names has been noted.
-/
namespace ShellToDeno

theorem Features.mem_used_add {features : Features} {feature added : Feature} :
    feature ∈ (features.add added).used ↔ feature = added ∨ feature ∈ features.used := by
  have listed : feature ∈ Feature.all := by cases feature <;> decide
  simp [Features.add, Features.ofUsed, listed]

theorem Features.has_add {features : Features} {feature : Feature} (added : Feature)
    (has : features.has feature) : (features.add added).has feature := by
  simp only [Features.has, List.contains_eq_mem, decide_eq_true_eq] at has ⊢
  exact Features.mem_used_add.2 (.inr has)

/-- The recipe that some fields have for a form. -/
def Fields.look (fields : Fields) (form : Form) : Option Recipe := fields.lookup form

theorem Fields.look_eq_none {fields : Fields} {form : Form}
    (missing : ∀ entry ∈ fields, entry.1 ≠ form) : fields.look form = none := by
  rw [Fields.look, List.lookup_eq_none_iff]
  intro entry member
  simpa using (missing entry member).symm

theorem Fields.mem_of_look {fields : Fields} {form : Form} {recipe : Recipe}
    (found : fields.look form = some recipe) : (form, recipe) ∈ fields := by
  obtain ⟨before, after, split, _⟩ := List.lookup_eq_some_iff.1 found
  simp [split]

/-- A fragment that supplies one form of a command. -/
theorem Ladder.of_single {fields : Fields} (only : Form) (proper : only ≠ .plainCall)
    (single : ∀ entry ∈ fields, entry.1 ∈ Form.commands →
      entry.1 = only ∧ ∀ segments, entry.2 ≠ .piped segments) : Ladder fields.look := by
  have others {form : Form} (listed : form ∈ Form.commands) (differ : form ≠ only) :
      fields.look form = none :=
    Fields.look_eq_none fun entry member same =>
      differ (same ▸ (single entry member (same ▸ listed)).1)
  have supplied {form : Form} (listed : form ∈ Form.commands) (given : fields.look form ≠ none) :
      form = only :=
    Classical.byContradiction fun differ => given (others listed differ)
  refine ⟨⟨fun given => ?_, fun given => ?_, others (by decide) proper.symm⟩, fun given => ?_,
    fun segments piped => ?_⟩
  · obtain rfl := supplied (by decide) given
    exact others (by decide) (by decide)
  · rcases given with given | given
    all_goals
      obtain rfl := supplied (by decide) given
      exact others (by decide) (by decide)
  · rcases given with given | given | given
    all_goals
      obtain rfl := supplied (by decide) given
      exact others (by decide) (by decide)
  · have listed : Form.redirectedCommand ∈ Form.commands := by decide
    exact (single _ (Fields.mem_of_look piped) listed).2 segments rfl

theorem Fragment.recipe?_ofFields (fields : Fields) (form : Form) :
    (ofFields fields).recipe? (some form) = fields.look form := by
  induction fields with
  | nil => rfl
  | cons entry fields ih =>
    simp only [recipe?, ofFields, Fields.look, List.map_cons, List.lookup_cons] at ih ⊢
    rw [ih]
    rfl

/-- The nodes of a command line are not too deep for a level. -/
def Call.Fits (fits : Nat → Node → Prop) (level : Nat) (call : Call) : Prop :=
  ∃ depth, 6 * depth + 5 ≤ level ∧ ∀ n ∈ call.nameNode :: call.arguments, fits depth n

/-- The command that a recipe converts again when it is followed. -/
def Recipe.call? : Recipe → Option Call
  | commandLine call => some call
  | _ => none

/-- What a recipe reads satisfies `P`, and a command line fits the level. -/
def Recipe.Rests (fits : Nat → Node → Prop) (P : FragmentId → Prop) (level : Nat)
    (recipe : Recipe) :
    Prop :=
  recipe.Within P ∧ ∀ call ∈ recipe.call?, call.Fits fits level

/-- The ways in which the compiler makes a fragment from others. -/
inductive Shape (made : FragmentId → Prop) (known : FragmentId → Option Form → Option Text → Prop)
    (look : Form → Option Recipe) : Prop where
  | plain (ladder : Ladder look) (decides : Decides look)
  | same {inner : FragmentId} (ladder : Ladder look)
    (condition : look .condition = some (.same inner .condition))
    (negation : look .negation = some (.same inner .negation)) (here : made inner)
  | swapped {inner : FragmentId} (ladder : Ladder look)
    (condition : look .condition = some (.same inner .negation))
    (negation : look .negation = some (.same inner .condition)) (here : made inner)
  | piped {last : FragmentId} {front : List FragmentId} {commands : List Text} {call joined : Text}
    (decides : Decides look) (pure : look .pureCommand = none)
    (redirected : look .redirectedCommand = some (.piped (front ++ [last])))
    (chained : look .chainedCommand = none) (plain : look .plainCall = none)
    (supplied : look .redirectedCall = some (.text joined)) (several : front ≠ [])
    (segments : ∀ segment ∈ front ++ [last], made segment)
    (front_known : AllKnown known .pureCommand front commands)
    (last_known : known last (some .redirectedCall) (some call))
    (assembled : Dax.prepend? (Text.join " | " commands ++ " | ") call = some joined)

/-- The state at the start of a function. -/
def CompileState.entered (s : CompileState) (name : Text) : CompileState :=
  { s with functions := name :: s.functions, depth := s.depth + 1 }

/-- The state at the end of a function. -/
def CompileState.left (s : CompileState) : CompileState := { s with depth := s.depth - 1 }

/-- What is followed along the steps of a compiler, with what each kind of step does to it. -/
structure Ledger where
  Fine : CompileState → Prop
  Leads : CompileState → CompileState → Prop
  /-- A fragment of which forms can be read, on a level. -/
  Low : CompileState → Nat → FragmentId → Prop
  Made : CompileState → FragmentId → Prop
  Unread : CompileState → FragmentId → Prop
  Known : CompileState → FragmentId → Option Form → Option Text → Prop
  /-- A node that is not too deep. -/
  Fits : Nat → Node → Prop
  /-- Whether the words of texts are followed. -/
  strict : Prop
  refl : ∀ s, Leads s s
  trans : ∀ {s t u}, Leads s t → Leads t u → Leads s u
  low : ∀ {s t level id}, Leads s t → Low s level id → Low t level id
  high : ∀ {s level higher id}, level ≤ higher → Low s level id → Low s higher id
  made : ∀ {s t id}, Leads s t → Made s id → Made t id
  known : ∀ {s t id form value}, Leads s t → Known s id form value → Known t id form value
  child : ∀ {depth n m}, Fits depth n → m ∈ n.children → Fits depth m
  leaf : ∀ {depth n text}, Fits depth n → (strict → Text.Plain text) → Fits depth (.leaf .word text)
  neat : ∀ {depth n}, Fits depth n → strict → Node.Neat n
  notes : ∀ {s t : CompileState}, Leads s t → strict → s.features.used ⊆ t.features.used
  values : ∀ {s} {id : FragmentId} {f : Fragment}, Fine s → strict → s.fragments[id]? = some f →
    ∀ texts ∈ f.values, ∀ text ∈ texts, Text.Plain text
  /-- A list among the sides of a list lies on the level of any other side. -/
  side : ∀ {depth n}, Fits depth n → ∃ e ≤ depth, (∀ m ∈ n.children, Fits e m) ∧
    ∀ {s id}, Low s (6 * e + 6) id → Low s (6 * depth) id
  quiet : ∀ {s t : CompileState}, t.fragments = s.fragments → t.labels = s.labels →
    t.functions = s.functions → t.depth = s.depth →
    (∀ {feature : Feature}, s.features.has feature → t.features.has feature) →
    Fine s → Fine t ∧ Leads s t
  function : ∀ {s} name, Fine s → Fine (s.entered name) ∧
    ∀ {t}, Leads (s.entered name) t → Fine t → Fine t.left ∧ Leads s t.left
  push : ∀ {s level} {fields : Fields} (values : Option (List Text)) isFallback, Fine s →
    (∀ entry ∈ fields, entry.2.Rests Fits (Low s level) level) →
    (strict → ∀ entry ∈ fields, entry.2.Clean s.features.used) →
    (strict → ∀ texts ∈ values, ∀ text ∈ texts, Text.Plain text) →
    Fine (s.push { Fragment.ofFields fields with values, isFallback }) ∧
      Leads s (s.push { Fragment.ofFields fields with values, isFallback }) ∧
      Low (s.push { Fragment.ofFields fields with values, isFallback }) (level + 1)
        s.fragments.size ∧
      Unread (s.push { Fragment.ofFields fields with values, isFallback }) s.fragments.size ∧
      (Shape (Made s) (Known s) fields.look →
        Made (s.push { Fragment.ofFields fields with values, isFallback }) s.fragments.size)

namespace Ledger
variable {L : Ledger} {s t u : CompileState} {id : FragmentId} {level : Nat}

theorem Leads.refl (s : CompileState) : L.Leads s s := L.refl s

theorem Leads.trans (first : L.Leads s t) (second : L.Leads t u) : L.Leads s u :=
    L.trans first second

theorem Low.lead (step : L.Leads s t) (low : L.Low s level id) : L.Low t level id := L.low step low

theorem Low.mono {higher : Nat} (le : level ≤ higher) (low : L.Low s level id) :
    L.Low s higher id :=
  L.high le low

theorem Made.lead (step : L.Leads s t) (made : L.Made s id) : L.Made t id := L.made step made

theorem Known.lead {form : Option Form} {value : Option Text} (step : L.Leads s t)
    (known : L.Known s id form value) : L.Known t id form value := L.known step known

theorem Fits.child {depth : Nat} {n m : Node} (fits : L.Fits depth n) (member : m ∈ n.children) :
    L.Fits depth m := L.child fits member

/-- The features of a state account for a text, if words are followed. -/
def Says (L : Ledger) (s : CompileState) (text : Text) : Prop :=
  L.strict → ShellToDeno.Says s.features.used text

/-- A text holds no capital letters, if words are followed. -/
def Plain (L : Ledger) (text : Text) : Prop := L.strict → text.Plain

/-- A node neither holds nor spells a capital letter, if words are followed. -/
def Neat (L : Ledger) (n : Node) : Prop := L.strict → n.Neat

/-- A feature has been noted, if words are followed. -/
def Has (L : Ledger) (s : CompileState) (feature : Feature) : Prop :=
  L.strict → feature ∈ s.features.used

section
variable {n : Node} {depth : Nat} {a b : Text}

theorem Neat.text (neat : L.Neat n) : L.Plain n.text := fun strict => (neat strict).text

theorem Neat.indent (neat : L.Neat n) : L.Plain n.indent := fun strict => (neat strict).indent

theorem Fits.neat (fits : L.Fits depth n) : L.Neat n := L.neat fits

theorem Fits.text (fits : L.Fits depth n) : L.Plain n.text := fits.neat.text

theorem Has.lead {feature : Feature} (step : L.Leads s t) (has : L.Has s feature) :
    L.Has t feature :=
  fun strict => L.notes step strict (has strict)

theorem Plain.const (plain : a.Plain) : L.Plain a := fun _ => plain

/-- A function of texts that writes no capital letters. -/
theorem Plain.of (plain : L.Plain a) (kept : a.Plain → b.Plain) : L.Plain b :=
  fun strict => kept (plain strict)

theorem Plain.append (first : L.Plain a) (second : L.Plain b) : L.Plain (a ++ b) :=
  fun strict => (first strict).append (second strict)

theorem Plain.flatMap {α : Type} {f : α → Text} {xs : List α} (each : ∀ x ∈ xs, L.Plain (f x)) :
    L.Plain (xs.flatMap f) := fun strict => .flatMap fun x member => each x member strict

end

namespace Says
open Text
variable {a b : Text}

theorem lead (step : L.Leads s t) (known : L.Says s a) : L.Says t a :=
  fun strict => (known strict).later (L.notes step strict)

theorem of_plain (plain : L.Plain a) : L.Says s a := fun strict => .of_plain (plain strict)

theorem const (spelled : Spelled commonWords a) : L.Says s a := fun _ => .const spelled

theorem helper {feature : Feature} (has : L.Has s feature)
    (spelled : Spelled (vocabulary [feature]) a) : L.Says s a :=
    fun strict => .helper (has strict) spelled

/-- A function of texts that adds no words. -/
theorem of (known : L.Says s a) (kept : ∀ {words}, Spelled words a → Spelled words b) :
    L.Says s b :=
  fun strict => kept (known strict)

theorem append (first : L.Says s a) (second : L.Says s b) : L.Says s (a ++ b) :=
  fun strict => (first strict).append (second strict)

theorem preceded (known : L.Says s a) (spelled : Spelled commonWords b) : L.Says s (b ++ a) :=
  append (const spelled) known

theorem followed (known : L.Says s a) (spelled : Spelled commonWords b) : L.Says s (a ++ b) :=
  append known (const spelled)

theorem within {front back : Text} (known : L.Says s a) (first : Spelled commonWords front)
    (last : Spelled commonWords back) : L.Says s (front ++ a ++ back) :=
  followed (preceded known first) last

theorem flatten {parts : List Text} (each : ∀ a ∈ parts, L.Says s a) : L.Says s parts.flatten :=
  fun strict => .flatten fun a member => each a member strict

theorem join {separator : Text} {parts : List Text} (between : Spelled commonWords separator)
    (each : ∀ a ∈ parts, L.Says s a) : L.Says s (Text.join separator parts) :=
  fun strict => .join (.const between) fun a member => each a member strict

/-- A text that may be missing, with one to stand for it. -/
theorem getD {found : Option Text} (known : ∀ a ∈ found, L.Says s a) (missing : L.Says s b) :
    L.Says s (found.getD b) := by
  cases found with
  | none => exact missing
  | some a => exact known a rfl

theorem marker (plain : L.Plain a) : L.Says s (Js.marker a) := fun strict => .marker (plain strict)

theorem substitution (known : L.Says s a) : L.Says s (Js.substitution a) :=
  known.within (by decide) (by decide)

theorem template (known : L.Says s a) : L.Says s (Js.template a) :=
  known.within (by decide) (by decide)

theorem call (known : L.Says s a) : L.Says s (Dax.call a) := known.within (by decide) (by decide)

end Says

/-- What a recipe reads lies below, and what it writes is accounted for. -/
structure Rests (L : Ledger) (s : CompileState) (level : Nat) (recipe : Recipe) : Prop where
  below : recipe.Rests L.Fits (L.Low s level) level
  clean : L.strict → recipe.Clean s.features.used

theorem rests_iff {recipe : Recipe} : L.Rests s level recipe ↔
    recipe.Rests L.Fits (L.Low s level) level ∧ (L.strict → recipe.Clean s.features.used) :=
  ⟨fun rests => ⟨rests.below, rests.clean⟩, fun both => ⟨both.1, both.2⟩⟩

@[simp] theorem rests_text {text : Text} : L.Rests s level (.text text) ↔ L.Says s text :=
  ⟨fun rests => rests.clean, fun known => ⟨⟨trivial, by simp [Recipe.call?]⟩, known⟩⟩

@[simp] theorem rests_check {value : Text} {negated : Bool} :
    L.Rests s level (.commandCheck value negated) ↔ L.Says s value :=
  ⟨fun rests => rests.clean, fun known => ⟨⟨trivial, by simp [Recipe.call?]⟩, known⟩⟩

theorem Rests.of_within {recipe : Recipe} (within : recipe.Within (L.Low s level))
    (plain : recipe.call? = none) (clean : ∀ features, recipe.Clean features) :
    L.Rests s level recipe :=
  ⟨⟨within, by simp [plain]⟩, fun _ => clean _⟩

theorem Rests.lead {recipe : Recipe} (step : L.Leads s t) (rests : L.Rests s level recipe) :
    L.Rests t level recipe :=
  ⟨⟨rests.below.1.imp fun _ => Low.lead step, rests.below.2⟩,
    fun strict => (rests.clean strict).mono (L.notes step strict)⟩

/-- A fragment as the compiler returns it: nothing of it has been read. -/
structure Returned (L : Ledger) (s : CompileState) (level : Nat) (id : FragmentId) : Prop where
  low : L.Low s level id
  made : L.Made s id
  unread : L.Unread s id

theorem Returned.mono {higher : Nat} (le : level ≤ higher) (returned : L.Returned s level id) :
    L.Returned s higher id := ⟨returned.low.mono le, returned.made, returned.unread⟩

end Ledger

variable {L : Ledger}

/-- Both steps do the same, and what they do leads on. -/
def Agree {α : Type} (L : Ledger) (s : CompileState) (x y : Compile α)
    (Q : α → CompileState → Prop) :
    Prop :=
  L.Fine s → Compile.run s x = Compile.run s y ∧ L.Fine (Compile.run s x).2 ∧
    L.Leads s (Compile.run s x).2 ∧ ∀ a, (Compile.run s x).1 = .ok a → Q a (Compile.run s x).2

/-- Steps that agree, whatever they give. -/
abbrev Agrees {α : Type} (L : Ledger) (s : CompileState) (x y : Compile α) : Prop :=
  Agree L s x y fun _ _ => True

/-- Steps that agree on a text that is accounted for. -/
abbrev WritesText (L : Ledger) (s : CompileState) (x y : Compile Text) : Prop :=
  Agree L s x y fun text t => L.Says t text

/-- Steps that may give a text. -/
abbrev WritesAny (L : Ledger) (s : CompileState) (x y : Compile (Option Text)) : Prop :=
  Agree L s x y fun found t => ∀ text ∈ found, L.Says t text

/-- Steps that may give some texts. -/
abbrev WritesAll (L : Ledger) (s : CompileState) (x y : Compile (Option (List Text))) : Prop :=
  Agree L s x y fun found t => ∀ texts ∈ found, ∀ text ∈ texts, L.Says t text

namespace Agree
variable {α β : Type} {s : CompileState} {x y : Compile α} {P Q : α → CompileState → Prop}
  {R : β → CompileState → Prop}

theorem pure {a : α} (here : Q a s) : Agree L s (Pure.pure a) (Pure.pure a) Q := by
  refine fun fine => ⟨rfl, fine, L.refl s, ?_⟩
  rintro _ ⟨⟩
  exact here

theorem fault (fault : Fault) : Agree L s (throw fault) (throw fault) Q :=
  fun fine => ⟨rfl, fine, L.refl s, by simp⟩

theorem bind (first : Agree L s x y P) {f g : α → Compile β}
    (rest : ∀ a t, L.Leads s t → P a t → Agree L t (f a) (g a) R) :
    Agree L s (x >>= f) (y >>= g) R := by
  intro fine
  obtain ⟨same, next, step, result⟩ := first fine
  rw [Compile.run_bind, Compile.run_bind, ← same]
  generalize Compile.run s x = outcome at next step result
  obtain ⟨outcome, t⟩ := outcome
  cases outcome with
  | error fault => exact ⟨rfl, next, step, by simp⟩
  | ok a =>
    obtain ⟨again, last, more, answer⟩ := rest a t step (result a rfl) next
    exact ⟨again, last, step.trans more, answer⟩

theorem imp (agree : Agree L s x y P) (implies : ∀ a t, L.Leads s t → P a t → Q a t) :
    Agree L s x y Q := by
  intro fine
  obtain ⟨same, next, step, result⟩ := agree fine
  exact ⟨same, next, step, fun a ok => implies a _ step (result a ok)⟩

theorem agrees (agree : Agree L s x y P) : Agrees L s x y := agree.imp fun _ _ _ _ => trivial

/-- Steps that agree, of which the result is used in a last step without effects. -/
theorem map (agree : Agree L s x y P) {f : α → β}
    (here : ∀ a t, L.Leads s t → P a t → R (f a) t) :
    Agree L s (do return f (← x)) (do return f (← y)) R :=
  agree.bind fun a t step known => .pure (here a t step known)

theorem recover (first : Agree L s x y Q) {f g : Fault → Compile α}
    (rest : ∀ fault t, L.Leads s t → Agree L t (f fault) (g fault) Q) :
    Agree L s (tryCatch x f) (tryCatch y g) Q := by
  intro fine
  obtain ⟨same, next, step, result⟩ := first fine
  rw [Compile.run_tryCatch, Compile.run_tryCatch, ← same]
  generalize Compile.run s x = outcome at next step result
  obtain ⟨outcome, t⟩ := outcome
  cases outcome with
  | ok a => exact ⟨rfl, next, step, result⟩
  | error fault =>
    obtain ⟨again, last, more, answer⟩ := rest fault t step next
    exact ⟨again, last, step.trans more, answer⟩

/-- A step that neither adds nor reads fragments. -/
theorem modify {f : CompileState → CompileState} (fragments : (f s).fragments = s.fragments)
    (labels : (f s).labels = s.labels) (functions : (f s).functions = s.functions)
    (depth : (f s).depth = s.depth)
    (features : ∀ {feature : Feature}, s.features.has feature → (f s).features.has feature) :
    Agrees L s (modify f) (modify f) := by
  intro fine
  obtain ⟨next, step⟩ := L.quiet fragments labels functions depth features fine
  exact ⟨rfl, next, step, fun _ _ => trivial⟩

theorem get : Agree L s get get fun found t => found = s ∧ t = s := by
  refine fun fine => ⟨rfl, fine, L.refl s, ?_⟩
  rintro _ ⟨⟩
  exact ⟨rfl, rfl⟩

/-- Steps for each member of a list, whose results keep what is known of them. -/
theorem mapM {f g : α → Compile β} (mono : ∀ {b t u}, L.Leads t u → R b t → R b u) {xs : List α}
    (each : ∀ a ∈ xs, ∀ t, L.Leads s t → Agree L t (f a) (g a) R) :
    Agree L s (xs.mapM f) (xs.mapM g) fun results t =>
      results.length = xs.length ∧ ∀ b ∈ results, R b t := by
  induction xs generalizing s with
  | nil => exact .pure ⟨rfl, List.forall_mem_nil _⟩
  | cons a xs ih =>
    rw [List.mapM_cons, List.mapM_cons]
    refine (each a List.mem_cons_self s (.refl s)).bind fun b t step here => ?_
    refine (ih fun a member u more => each a (List.mem_cons_of_mem _ member) u
      (step.trans more)).bind
      fun results u more rest => .pure ⟨by simp [rest.1], ?_⟩
    exact List.forall_mem_cons.2 ⟨mono more here, rest.2⟩

theorem flatMapM {f g : α → Compile (List β)} (mono : ∀ {b t u}, L.Leads t u → R b t → R b u)
    {xs : List α} (each : ∀ a ∈ xs, ∀ t, L.Leads s t →
      Agree L t (f a) (g a) fun results u => ∀ b ∈ results, R b u) :
    Agree L s (xs.flatMapM f) (xs.flatMapM g) fun results t => ∀ b ∈ results, R b t := by
  have loop (done : List (List β)) (known : ∀ results ∈ done, ∀ b ∈ results, R b s) :
      Agree L s (List.flatMapM.loop f xs done) (List.flatMapM.loop g xs done)
        fun results t => ∀ b ∈ results, R b t := by
    induction xs generalizing s done with
    | nil =>
      refine .pure fun b member => ?_
      obtain ⟨results, listed, member⟩ := List.mem_flatten.1 member
      exact known results (List.mem_reverse.1 listed) b member
    | cons a xs ih =>
      rw [List.flatMapM.loop, List.flatMapM.loop]
      refine (each a List.mem_cons_self s (.refl s)).bind fun results t step here => ?_
      refine ih (fun a member u more => each a (List.mem_cons_of_mem _ member) u (step.trans more))
        _
        (List.forall_mem_cons.2 ⟨here, ?_⟩)
      exact fun others member b listed => mono step (known others member b listed)
  exact loop [] (List.forall_mem_nil _)

theorem filterM {f : α → Compile Bool} {xs : List α} (each : ∀ a t, Agrees L t (f a) (f a)) :
    Agrees L s (xs.filterM f) (xs.filterM f) := by
  have loop (done : List α) :
      Agrees L s (List.filterAuxM f xs done) (List.filterAuxM f xs done) := by
    induction xs generalizing s done with
    | nil => exact .pure trivial
    | cons a xs ih =>
      rw [List.filterAuxM]
      exact (each a s).bind fun kept t _ _ => ih _
  exact (loop []).bind fun _ _ _ _ => .pure trivial

theorem lift {e : Except Fault α} (here : ∀ a, e = .ok a → Q a s) :
    Agree L s (liftM e : Compile α) (liftM e) Q := by
  cases e with
  | ok a => exact .pure (here a rfl)
  | error e => exact .fault e

theorem of_run {x' y' : Compile α} (left : Compile.run s x = Compile.run s x')
    (right : Compile.run s y = Compile.run s y') (agree : Agree L s x' y' Q) : Agree L s x y Q := by
  rw [Agree, left, right]
  exact agree

end Agree

section
variable {s : CompileState}

theorem Agree.absent : WritesAny L s (Pure.pure none) (Pure.pure none) := .pure (by simp)

theorem Agree.present {text : Text} (known : L.Says s text) :
    WritesAny L s (Pure.pure (some text)) (Pure.pure (some text)) := .pure (by simpa using known)

/-- A text made from another one. -/
theorem Agree.mapText {x y : Compile (Option Text)} (agree : WritesAny L s x y) {f : Text → Text}
    (kept : ∀ t, L.Leads s t → ∀ text, L.Says t text → L.Says t (f text)) :
    WritesAny L s (do return (← x).map f) (do return (← y).map f) := by
  refine Agree.map agree fun found t step known text member => ?_
  obtain ⟨inner, among, rfl⟩ := Option.map_eq_some_iff.1 member
  exact kept t step inner (known inner among)

/-- A text made from several. -/
theorem Agree.mapTexts {x y : Compile (Option (List Text))} (agree : WritesAll L s x y)
    {f : List Text → Text}
    (kept : ∀ {t texts}, (∀ text ∈ texts, L.Says t text) → L.Says t (f texts)) :
    WritesAny L s (do return (← x).map f) (do return (← y).map f) := by
  refine Agree.map agree fun found t _ known text member => ?_
  obtain ⟨texts, among, rfl⟩ := Option.map_eq_some_iff.1 member
  exact kept (known texts among)

/-- One more text in front of others. -/
theorem Agree.consText {x y : Compile (Option (List Text))} (agree : WritesAll L s x y)
    {text : Text}
    (first : L.Says s text) :
    WritesAll L s (do return (← x).map (text :: ·)) (do return (← y).map (text :: ·)) := by
  refine Agree.map agree fun found t step known texts member => ?_
  obtain ⟨others, among, rfl⟩ := Option.map_eq_some_iff.1 member
  exact List.forall_mem_cons.2 ⟨first.lead step, known others among⟩

/-- Steps that agree on a text for each member of a list. -/
theorem Agree.mapM_writes {α : Type} {f g : α → Compile Text} {xs : List α}
    (each : ∀ a ∈ xs, ∀ t, L.Leads s t → WritesText L t (f a) (g a)) :
    Agree L s (xs.mapM f) (xs.mapM g) fun texts t => ∀ text ∈ texts, L.Says t text :=
  (Agree.mapM (R := fun text t => L.Says t text) Ledger.Says.lead each).imp fun _ _ _ => And.right

end

theorem Agree.mapM_low {α : Type} {s : CompileState} {level : Nat} {f g : α → Compile FragmentId}
    {xs : List α}
    (each : ∀ a ∈ xs, ∀ t, L.Leads s t → Agree L t (f a) (g a) fun id u => L.Low u level id) :
    Agree L s (xs.mapM f) (xs.mapM g) fun ids t => ∀ id ∈ ids, L.Low t level id :=
  (Agree.mapM (R := fun id t => L.Low t level id) Ledger.Low.lead each).imp fun _ _ _ => And.right

namespace Compile
variable {s : CompileState}

theorem use_notes (feature : Feature) :
    Agree L s (use feature) (use feature) fun _ t => L.Has t feature := by
  intro fine
  have modified : Agrees L s (use feature) (use feature) :=
    .modify rfl rfl rfl rfl (Features.has_add feature)
  obtain ⟨same, next, step, _⟩ := modified fine
  exact ⟨same, next, step, fun _ _ _ => Features.mem_used_add.2 (.inl rfl)⟩

theorem log_agrees (level : Level) (message : Text) (fields : List (Text × Text)) :
    Agrees L s (log level message fields) (log level message fields) :=
  .modify rfl rfl rfl rfl fun has => has

/-- Work inside a function leads on as it does outside: the depth is taken back at its end. -/
theorem insideFunction_agree {α : Type} (name : Text) {x y : Compile α}
    {Q : α → CompileState → Prop}
    (work : ∀ t, Agree L t x y Q) (left : ∀ a t, Q a t → Q a t.left) :
    Agree L s (insideFunction name x) (insideFunction name y) Q := by
  have ran (work : Compile α) : run s (insideFunction name work) =
      ((run (s.entered name) work).1, (run (s.entered name) work).2.left) := by
    rw [insideFunction, run_bind]
    dsimp only [enterFunction, run_modify]
    rw [← CompileState.entered, run_bind, run_tryCatch]
    generalize run (s.entered name) work = outcome
    obtain ⟨outcome, t⟩ := outcome
    cases outcome <;> rfl
  intro fine
  obtain ⟨entered, back⟩ := L.function name fine
  obtain ⟨same, next, step, result⟩ := work (s.entered name) entered
  rw [ran, ran, ← same]
  obtain ⟨last, leads⟩ := back step next
  exact ⟨rfl, last, leads, fun a ok => left a _ (result a ok)⟩

theorem fragment_same (id : FragmentId) : Agree L s (fragment id) (fragment id) fun _ t =>
    t = s := by
  refine Agree.get.bind fun found t _ same => ?_
  split
  · exact .pure same.2
  · exact .fault _

theorem supplies_same (id : FragmentId) (form : Form) :
    Agree L s (supplies id form) (supplies id form) fun _ t => t = s :=
  (fragment_same id).bind fun _ _ _ same => .pure same

theorem isFallback_same (id : FragmentId) :
    Agree L s (isFallback id) (isFallback id) fun _ t => t = s :=
  (fragment_same id).bind fun _ _ _ same => .pure same

theorem values?_same (id : FragmentId) : Agree L s (values? id) (values? id) fun found t =>
    t = s ∧ ∀ values ∈ found, ∀ value ∈ values, L.Plain value := by
  intro fine
  have result : Agree L s (values? id) (values? id) fun found t =>
      t = s ∧ ∀ values ∈ found, ∀ value ∈ values, L.Plain value := by
    refine Agree.bind (P := fun f t => t = s ∧ s.fragments[id]? = some f) ?_ fun f t _ known =>
      .pure ⟨known.1, fun values given value member strict =>
        L.values fine strict known.2 values given value member⟩
    refine Agree.get.bind fun found t _ same => ?_
    obtain ⟨rfl, rfl⟩ := same
    split
    · next f present => exact .pure ⟨rfl, present⟩
    · exact .fault _
  exact result fine

theorem run_add (f : Fragment) : run s (add f) = (.ok s.fragments.size, s.push f) := rfl

/-- A new fragment lies one level above what it is made from. -/
theorem add_returned {level : Nat} {fields : Fields} {values : Option (List Text)}
    (isFallback : Bool)
    (rests : ∀ entry ∈ fields, L.Rests s level entry.2)
    (plain : ∀ texts ∈ values, ∀ text ∈ texts, L.Plain text)
    (shape : Shape (L.Made s) (L.Known s) fields.look) :
    Agree L s (add { Fragment.ofFields fields with values, isFallback })
      (add { Fragment.ofFields fields with values, isFallback })
      fun id t => L.Returned t (level + 1) id := by
  intro fine
  obtain ⟨next, step, low, unread, made⟩ := L.push values isFallback fine
    (fun entry member => (rests entry member).below)
    (fun strict entry member => (rests entry member).clean strict)
    fun strict texts given text member => plain texts given text member strict
  refine ⟨rfl, next, step, ?_⟩
  rintro _ ⟨⟩
  exact ⟨low, made shape, unread⟩

theorem new_low {level : Nat} {fields : Fields}
    (rests : ∀ entry ∈ fields, L.Rests s level entry.2) :
    Agree L s (new fields) (new fields) fun id t => L.Low t (level + 1) id := by
  intro fine
  obtain ⟨next, step, low, _⟩ := L.push none false fine
    (fun entry member => (rests entry member).below)
    (fun strict entry member => (rests entry member).clean strict) (by simp)
  refine ⟨rfl, next, step, ?_⟩
  rintro _ ⟨⟩
  exact low

theorem new_returned {level : Nat} {fields : Fields}
    (rests : ∀ entry ∈ fields, L.Rests s level entry.2)
    (shape : Shape (L.Made s) (L.Known s) fields.look) :
    Agree L s (new fields) (new fields) fun id t => L.Returned t (level + 1) id :=
  add_returned false rests (by simp) shape

/-- Forms that have nothing to do with commands and conditions. -/
def isPlain : Form → Bool
  | .pureCommand | .redirectedCommand | .chainedCommand | .plainCall | .redirectedCall | .success
  | .failure | .condition | .negation => false
  | _ => true

theorem look_eq_none {fields : Fields} (plain : ∀ entry ∈ fields, isPlain entry.1) {form : Form}
    (special : isPlain form = false) : fields.look form = none := by
  apply Fields.look_eq_none
  rintro entry member rfl
  rw [plain entry member] at special
  cases special

/-- A fragment that only has plain forms. -/
theorem shape_of_plain {fields : Fields} (plain : ∀ entry ∈ fields, isPlain entry.1)
    {made : FragmentId → Prop} {known : FragmentId → Option Form → Option Text → Prop} :
    Shape made known fields.look := by
  have unlisted {form : Form} : isPlain form → form ∉ Form.commands := by cases form <;> decide
  refine .plain (.of_single .pureCommand (by decide) fun entry member listed =>
    absurd listed (unlisted (plain entry member))) (.derived ?_ ?_ ?_ ?_)
  all_goals exact look_eq_none plain rfl

theorem rests_of_text {level : Nat} {recipe : Recipe}
    (text : ∃ text, recipe = .text text ∧ L.Says s text) : L.Rests s level recipe := by
  obtain ⟨text, rfl, known⟩ := text
  exact Ledger.rests_text.2 known

/-- A new fragment that is made from nothing but texts and only has plain forms. -/
theorem new_texts {fields : Fields} (texts : ∀ entry ∈ fields,
      isPlain entry.1 ∧ ∃ text, entry.2 = .text text ∧ L.Says s text) (level : Nat) :
    Agree L s (new fields) (new fields) fun id t => L.Returned t (level + 1) id :=
  new_returned (fun entry member => rests_of_text (texts entry member).2)
    (shape_of_plain fun entry member => (texts entry member).1)

theorem expression_returned {text : Text} (known : L.Says s text) (level : Nat) :
    Agree L s (expression text) (expression text) fun id t => L.Returned t (level + 1) id :=
  new_texts (by simp [isPlain, known]) level

theorem fallback_returned {text : Text} (plain : L.Plain text) (level : Nat) :
    Agree L s (fallback text) (fallback text) fun id t => L.Returned t (level + 1) id :=
  add_returned true (by simp [Ledger.Says.marker plain]) (by simp [Fragment.ofFields])
    (shape_of_plain (by simp [isPlain]))

theorem giveUp_returned {n : Node} (neat : L.Neat n) (reason : Text) (level : Nat) :
    Agree L s (giveUp n reason) (giveUp n reason) fun id t => L.Returned t (level + 1) id :=
  (log_agrees _ _ _).bind fun _ _ _ _ => fallback_returned neat.text level

end Compile

/-- A fragment that only marks what could not be compiled. -/
def CompileState.FallsBack (s : CompileState) (id : FragmentId) : Prop :=
  ∃ text, s.fragments[id]? =
    some { Fragment.ofFields [(.value, .text (Js.marker text))] with isFallback := true }

namespace Compile

variable {s t : CompileState} {id : FragmentId}

theorem of_run_fallback {text : Text} (ran : run s (fallback text) = (.ok id, t)) :
    t.FallsBack id := by
  cases ran
  exact ⟨text, by simp⟩

theorem of_run_giveUp {n : Node} {reason : Text} (ran : run s (giveUp n reason) = (.ok id, t)) :
    t.FallsBack id := by
  cases ran
  exact ⟨n.text, by simp⟩

theorem of_run_node {c : Compiler} {n : Node} {context : Context}
    (ran : run s (node c n context) = (.ok id, t)) :
    run s (branch c n context) = (.ok id, t) ∨ t.FallsBack id := by
  rw [node, run_tryCatch] at ran
  split at ran
  · next ended => exact .inl (ended.trans ran)
  · obtain ⟨_, u, _, ended⟩ := of_run_bind ran
    exact .inr (of_run_fallback ended)

end Compile

end ShellToDeno
