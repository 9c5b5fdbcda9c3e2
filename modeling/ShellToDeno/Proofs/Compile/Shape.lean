import ShellToDeno.Proofs.Compile.Store

/-!
# The shapes of compiled fragments

The forms of a command are derived one from the other, so a fragment supplies the lowest one it has
and nothing above it (`Ladder`); only a pipeline supplies two of them, and it makes the upper one
from the segments of the lower one. A fragment supplies its condition in one of few ways, which
decide its negation (`Decides`). `Made` puts both together, for a fragment and for those it passes
conditions on from or pipes.
-/
namespace ShellToDeno

/-- Texts of which one holds just when the other fails. -/
inductive Opposite : Text → Text → Prop where
  | symm {a b : Text} : Opposite a b → Opposite b a
  | parenthesized {a b : Text} : Opposite a b → Opposite ("(" ++ a ++ ")") b
  | negated (c : Text) : Opposite c ("!(" ++ c ++ ")")
  | exitCode (v : Text) : Opposite ("((" ++ v ++ ").code == 0)") ("((" ++ v ++ ").code != 0)")
  | status (e : Text) : Opposite ("(" ++ e ++ ") == 0") ("(" ++ e ++ ") != 0")
  | lookup (v : Text) :
    Opposite ("hasCommand(" ++ v ++ ")") ("!" ++ ("hasCommand(" ++ v ++ ")"))
  | matched (l pattern : Text) : Opposite (l ++ ".match(new RegExp(`" ++ pattern ++ "`))")
    ("!" ++ (l ++ ".match(new RegExp(`" ++ pattern ++ "`))"))
  | compared {operator : Text} {c : Comparison} (listed : (operator, c) ∈ Compile.comparisons)
    (l r : Text) : Opposite (l ++ " " ++ c.holds ++ " " ++ r) (l ++ " " ++ c.fails ++ " " ++ r)
  | length (v : Text) : Opposite (v ++ ".length > 0") (v ++ ".length == 0")
  | constant : Opposite "true" "false"

/-- Both texts are there and opposite, or none is there. -/
inductive OppositeIfAny : Option Text → Option Text → Prop where
  | none : OppositeIfAny none none
  | some {a b : Text} : Opposite a b → OppositeIfAny (some a) (some b)

theorem OppositeIfAny.symm {a b : Option Text} : OppositeIfAny a b → OppositeIfAny b a
  | .none => .none
  | .some opposite => .some opposite.symm

/-- The forms that run a command. -/
def Form.commands : List Form :=
  [.pureCommand, .redirectedCommand, .chainedCommand, .plainCall, .redirectedCall]

/-- Of the command strings of a fragment only the lowest one is supplied. -/
structure Rungs (look : Form → Option Recipe) : Prop where
  redirected : look .pureCommand ≠ none → look .redirectedCommand = none
  chained : look .pureCommand ≠ none ∨ look .redirectedCommand ≠ none → look .chainedCommand = none
  plain : look .plainCall = none

/-- A call with methods is supplied only by a fragment without command strings, and a command that
is piped only by a pipeline. -/
structure Ladder (look : Form → Option Recipe) : Prop extends Rungs look where
  call : look .pureCommand ≠ none ∨ look .redirectedCommand ≠ none ∨ look .chainedCommand ≠ none →
    look .redirectedCall = none
  unpiped : ∀ segments, look .redirectedCommand ≠ some (.piped segments)

/-- How the condition of a fragment is supplied, and its negation. -/
inductive Decides (look : Form → Option Recipe) : Prop where
  | derived (condition : look .condition = none) (negation : look .negation = none)
    (success : look .success = none) (failure : look .failure = none)
  | text {t : Text} (condition : look .condition = some (.text t))
      (negation : look .negation = none)
  | joined {left operator : Text} {right : FragmentId}
    (condition : look .condition = some (.joinedCondition left operator right))
    (negation : look .negation = none) (failure : look .failure = none)
    (commands : ∀ form ∈ Form.commands, look form = none)
  | texts {a b : Text} (condition : look .condition = some (.text a))
    (negation : look .negation = some (.text b)) (opposite : Opposite a b)
  | check {operand : Text} (condition : look .condition = some (.commandCheck operand false))
    (negation : look .negation = some (.commandCheck operand true))

/-- One form of each fragment is known. -/
def AllKnown (known : FragmentId → Option Form → Option Text → Prop) (form : Form) :
    List FragmentId → List Text → Prop
  | [], [] => True
  | id :: ids, value :: values => known id (some form) (some value) ∧ AllKnown known form ids values
  | _, _ => False

theorem AllKnown.imp {known later : FragmentId → Option Form → Option Text → Prop} {form : Form}
    {ids : List FragmentId} {values : List Text} (all : AllKnown known form ids values)
    (implies : ∀ {id form value}, known id form value → later id form value) :
    AllKnown later form ids values := by
  fun_induction AllKnown known form ids values with
  | case1 => trivial
  | case2 id ids value values ih => exact ⟨implies all.1, ih all.2⟩
  | case3 => exact all.elim

namespace CompileState

/-- One form of each fragment is there. -/
abbrev KnownAll (s : CompileState) (form : Form) : List FragmentId → List Text → Prop :=
  AllKnown (fun id form value => s.known? id form = some value) form

/-- A fragment as the compiler makes it. -/
inductive Made (A : FragmentId → Prop) (s : CompileState) : FragmentId → Prop where
  | plain {id : FragmentId} (owned : Owns A s id) (ladder : Ladder (s.recipe? id))
    (decides : Decides (s.recipe? id)) : Made A s id
  | same {id inner : FragmentId} (owned : Owns A s id) (ladder : Ladder (s.recipe? id))
    (condition : s.recipe? id .condition = some (.same inner .condition))
    (negation : s.recipe? id .negation = some (.same inner .negation)) (made : Made A s inner) :
    Made A s id
  | swapped {id inner : FragmentId} (owned : Owns A s id) (ladder : Ladder (s.recipe? id))
    (condition : s.recipe? id .condition = some (.same inner .negation))
    (negation : s.recipe? id .negation = some (.same inner .condition)) (made : Made A s inner) :
    Made A s id
  | piped {id last : FragmentId} {front : List FragmentId} {commands : List Text}
    {call joined : Text} (owned : Owns A s id) (decides : Decides (s.recipe? id))
    (pure : s.recipe? id .pureCommand = none)
    (redirected : s.recipe? id .redirectedCommand = some (.piped (front ++ [last])))
    (chained : s.recipe? id .chainedCommand = none) (plain : s.recipe? id .plainCall = none)
    (supplied : s.recipe? id .redirectedCall = some (.text joined)) (several : front ≠ [])
    (segments : ∀ segment ∈ front ++ [last], Made A s segment)
    (front_known : KnownAll s .pureCommand front commands)
    (last_known : s.known? last (some .redirectedCall) = some (some call))
    (assembled : Dax.prepend? (Text.join " | " commands ++ " | ") call = some joined) : Made A s id

variable {A : FragmentId → Prop} {s t : CompileState} {id : FragmentId}

theorem Made.owns (made : Made A s id) : Owns A s id := by
  cases made <;> assumption

theorem Made.rungs (made : Made A s id) : Rungs (s.recipe? id) := by
  cases made with
  | plain _ ladder | same _ ladder | swapped _ ladder => exact ladder.toRungs
  | piped _ _ pure _ chained plain =>
    exact ⟨fun supplied => (supplied pure).elim, fun _ => chained, plain⟩

theorem Extends.knownAll (step : Extends A s t) {form : Form} {ids : List FragmentId}
    {values : List Text} (known : KnownAll s form ids values) : KnownAll t form ids values :=
  known.imp step.known

theorem Extends.made (step : Extends A s t) (made : Made A s id) : Made A t id := by
  have recipes {id : FragmentId} (owned : Owns A s id) : t.recipe? id = s.recipe? id :=
    funext (step.recipe? owned.2)
  induction made with
  | plain owned ladder decides =>
    exact .plain (step.owns owned) (recipes owned ▸ ladder) (recipes owned ▸ decides)
  | same owned ladder condition negation _ ih =>
    rw [← recipes owned] at ladder condition negation
    exact .same (step.owns owned) ladder condition negation ih
  | swapped owned ladder condition negation _ ih =>
    rw [← recipes owned] at ladder condition negation
    exact .swapped (step.owns owned) ladder condition negation ih
  | piped owned decides pure redirected chained plain supplied several segments commands call
      assembled ih =>
    rw [← recipes owned] at decides pure redirected chained plain supplied
    exact .piped (step.owns owned) decides pure redirected chained plain supplied several ih
      (step.knownAll commands) (step.known call) assembled

/-! A form that is known is what its derivation or its recipe gives. -/

theorem Sound.derived (sound : Sound A s) (owned : Owns A s id) {form : Form} {value : Option Text}
    (derived : s.recipe? id form = none) (known : s.known? id (some form) = some value) :
    (form.derivation id fun g => (s.recipe? id g).isSome).eval s.known? = some value := by
  have present := Array.getElem?_eq_getElem owned.2
  apply (sound.justified owned.1 known).asked
  simp only [recipe?, present, Option.bind_some] at derived
  simp [query?, recipe?, present, Fragment.query?, derived, Fragment.supplies]

theorem Sound.supplied (sound : Sound A s) (owned : Owns A s id) {form : Form}
    {value : Option Text} {recipe : Recipe} {q : Query} (given : s.recipe? id form = some recipe)
    (asks : recipe.query? s.labels = some q) (known : s.known? id (some form) = some value) :
    q.eval s.known? = some value := by
  have present := Array.getElem?_eq_getElem owned.2
  apply (sound.justified owned.1 known).asked
  simp only [recipe?, present, Option.bind_some] at given
  simp [query?, present, Fragment.query?, given, asks]

section
variable {value : Option Text} (sound : Sound A s) (owned : Owns A s id)
include sound owned

theorem Sound.derived_via {form lower : Form} {f : Text → Text}
    (via : ∀ given, form.derivation id given = .via id lower f) (derived : s.recipe? id form = none)
    (known : s.known? id (some form) = some value) :
    ∃ answer, s.known? id (some lower) = some answer ∧ value = answer.map f := by
  have found := sound.derived owned derived known
  rw [via] at found
  obtain ⟨answer, asked, found⟩ := Option.bind_eq_some_iff.1 found
  exact ⟨answer, asked, (Option.some.inj found).symm⟩

theorem Sound.pureCommand_eq_none (derived : s.recipe? id .pureCommand = none)
    (known : s.known? id (some .pureCommand) = some value) : value = none := by
  have found := sound.derived owned derived known
  exact (Option.some.inj found).symm

theorem Sound.pureCommand_of_redirected (derived : s.recipe? id .redirectedCommand = none)
    (known : s.known? id (some .redirectedCommand) = some value) :
    s.known? id (some .pureCommand) = some value := by
  simpa [Form.derivation, Query.eval] using sound.derived owned derived known

theorem Sound.redirected_of_chained (derived : s.recipe? id .chainedCommand = none)
    (known : s.known? id (some .chainedCommand) = some value) :
    s.known? id (some .redirectedCommand) = some value := by
  simpa [Form.derivation, Query.eval] using sound.derived owned derived known

theorem Sound.chained_of_plainCall (derived : s.recipe? id .plainCall = none)
    (known : s.known? id (some .plainCall) = some value) :
    ∃ command, s.known? id (some .chainedCommand) = some command ∧ value = command.map Dax.call :=
  sound.derived_via owned (fun _ => rfl) derived known

theorem Sound.plainCall_of_redirectedCall (derived : s.recipe? id .redirectedCall = none)
    (known : s.known? id (some .redirectedCall) = some value) :
    s.known? id (some .plainCall) = some value := by
  simpa [Form.derivation, Query.eval] using sound.derived owned derived known

/-- A fragment without any form of a command has no call. -/
theorem Sound.redirectedCall_eq_none (commands : ∀ form ∈ Form.commands, s.recipe? id form = none)
    (known : s.known? id (some .redirectedCall) = some value) : value = none := by
  have plain := sound.plainCall_of_redirectedCall owned (commands _ (by decide)) known
  obtain ⟨command, chained, rfl⟩ :=
    sound.chained_of_plainCall owned (commands _ (by decide)) plain
  have redirected := sound.redirected_of_chained owned (commands _ (by decide)) chained
  have pure := sound.pureCommand_of_redirected owned (commands _ (by decide)) redirected
  rw [sound.pureCommand_eq_none owned (commands _ (by decide)) pure]
  rfl

end

end CompileState

end ShellToDeno
