import ShellToDeno.Proofs.Compile.Forms
import ShellToDeno.Proofs.Settling.Depth

/-!
# Levels

Two compilers that differ only in how deep they may go agree on every step that does not go too
deep. The work on a state forgets nothing (`Leads`), and a fragment lies on a level (`Low`): what
its recipes read lies on lower levels, and the nodes of a command line are not too deep for its
level. Reading it goes down from level to level.
-/
namespace ShellToDeno

namespace CompileState

/-- What the work on a state never takes away: recipes, features, functions and the depth. -/
structure Leads (s t : CompileState) : Prop where
  fragments : ∀ {id : FragmentId} {f : Fragment}, s.fragments[id]? = some f →
    ∃ g, t.fragments[id]? = some g ∧ g.supplied = f.supplied
  features : ∀ {feature : Feature}, s.features.has feature → t.features.has feature
  functions : s.functions ⊆ t.functions
  depth : t.depth = s.depth

namespace Leads
variable {s t u : CompileState}

theorem refl (s : CompileState) : Leads s s :=
  ⟨fun found => ⟨_, found, rfl⟩, fun has => has, List.Subset.refl _, rfl⟩

theorem trans (first : Leads s t) (second : Leads t u) : Leads s u := by
  refine ⟨fun found => ?_, fun has => second.features (first.features has),
    List.Subset.trans first.functions second.functions, second.depth.trans first.depth⟩
  obtain ⟨g, kept, same⟩ := first.fragments found
  obtain ⟨h, kept, again⟩ := second.fragments kept
  exact ⟨h, kept, again.trans same⟩

theorem push (s : CompileState) (f : Fragment) : Leads s (s.push f) := by
  refine ⟨fun {id g} found => ⟨g, ?_, rfl⟩, fun has => has, List.Subset.refl _, rfl⟩
  obtain ⟨inside, _⟩ := Array.getElem?_eq_some_iff.1 found
  rw [CompileState.push, Array.getElem?_push, if_neg (Nat.ne_of_lt inside), found]

theorem setSlot (s : CompileState) (id : FragmentId) (form : Form) (slot : Slot) :
    Leads s (s.setSlot id form slot) := by
  refine ⟨fun {j f} found => ?_, fun has => has, List.Subset.refl _, rfl⟩
  rw [getElem?_setSlot, found, Option.map_some]
  refine ⟨_, rfl, ?_⟩
  split <;> rfl

end Leads

end CompileState

open CompileState

namespace CompileState

/-- A fragment on a level: what it is made from lies below. -/
def Low (s : CompileState) : Nat → FragmentId → Prop
  | 0, _ => False
  | level + 1, id => ∃ f, s.fragments[id]? = some f ∧ ∀ form recipe,
    f.recipe? (some form) = some recipe →
      recipe.Rests (fun depth n => n.Bounded depth) (s.Low level) level

variable {s t : CompileState} {id : FragmentId} {level : Nat}

theorem Low.lead (step : Leads s t) (low : s.Low level id) : t.Low level id := by
  induction level generalizing id with
  | zero => exact low.elim
  | succ level ih =>
    obtain ⟨f, found, rests⟩ := low
    obtain ⟨g, kept, same⟩ := step.fragments found
    refine ⟨g, kept, fun form recipe given => ?_⟩
    rw [Fragment.recipe?, same] at given
    obtain ⟨within, fits⟩ := rests form recipe given
    exact ⟨within.imp fun _ => ih, fits⟩

theorem Low.mono {higher : Nat} (le : level ≤ higher) (low : s.Low level id) :
    s.Low higher id := by
  induction level generalizing higher id with
  | zero => exact low.elim
  | succ level ih =>
    obtain ⟨higher, rfl⟩ : ∃ h, higher = h + 1 := ⟨higher - 1, by omega⟩
    obtain ⟨f, found, rests⟩ := low
    refine ⟨f, found, fun form recipe given => ?_⟩
    obtain ⟨within, fits⟩ := rests form recipe given
    refine ⟨within.imp fun _ => ih (Nat.le_of_succ_le_succ le), fun call same => ?_⟩
    obtain ⟨depth, room, bounded⟩ := fits call same
    exact ⟨depth, by omega, bounded⟩

end CompileState

/-- The ledger of levels: nothing is asked of a state, and all that counts is how deep things
lie. -/
def Ledger.levels : Ledger where
  Fine _ := True
  Leads := CompileState.Leads
  Low := CompileState.Low
  Made _ _ := True
  Unread _ _ := True
  Known _ _ _ _ := True
  Fits depth n := n.Bounded depth
  strict := False
  refl := CompileState.Leads.refl
  trans := CompileState.Leads.trans
  low := CompileState.Low.lead
  high := CompileState.Low.mono
  made _ _ := trivial
  known _ _ := trivial
  child := Node.Bounded.child
  leaf bounded _ := bounded.leaf _
  neat _ strict := strict.elim
  notes _ strict := strict.elim
  values _ strict := strict.elim
  side {depth _} bounded := by
    cases depth with
    | zero => exact bounded.elim
    | succ depth => exact ⟨depth, Nat.le_succ depth, bounded.1, fun low => low⟩
  quiet fragments _ functions depth features _ :=
    ⟨trivial, fun found => ⟨_, fragments ▸ found, rfl⟩, features, by simp [functions], depth⟩
  function {s} name _ := by
    refine ⟨trivial, fun step _ => ⟨trivial, fun found => step.fragments found,
      fun has => step.features has, ?_, ?_⟩⟩
    · exact fun known member => step.functions (List.mem_cons_of_mem name member)
    · have entered := step.depth
      dsimp only [CompileState.entered, CompileState.left] at entered ⊢
      omega
  push {s _ fields} values isFallback _ rests _ _ := by
    have step := CompileState.Leads.push s { Fragment.ofFields fields with values, isFallback }
    refine ⟨trivial, step, ⟨_, Array.getElem?_push_size, fun form recipe given => ?_⟩, trivial,
      fun _ => trivial⟩
    have member := Fields.mem_of_look ((Fragment.recipe?_ofFields fields form).symm.trans given)
    obtain ⟨within, fits⟩ := rests (form, recipe) member
    exact ⟨within.imp fun _ => CompileState.Low.lead step, fits⟩

variable {c d : Compiler} {s : CompileState} {id : FragmentId}

/-- A query is answered alike by compilers that agree on all that it asks. -/
theorem Query.run_agrees {P : FragmentId → Option Form → Prop} {q : Query} (asks : q.Asks P)
    (each : ∀ {t : CompileState} {id : FragmentId} {form : Option Form}, Leads s t → P id form →
      Agrees Ledger.levels t (c.readAny id form) (d.readAny id form)) :
    Agrees Ledger.levels s (q.run c) (q.run d) := by
  induction asks generalizing s with
  | give value => exact .pure trivial
  | ask here _ ih =>
    exact (each (.refl s) here).bind fun value t step _ =>
      ih value fun more => each (Leads.trans step more)

namespace Fragment

/-- A form is read alike if it is made alike. -/
theorem read_agrees {form : Form} {f : Fragment} (present : s.fragments[id]? = some f)
    (making : Agrees Ledger.levels (s.setSlot id form .cooking) (making c id f form)
      (making d id f form)) :
    Agrees Ledger.levels s (read c id (some form)) (read d id (some form)) :=
  read_agree present (fun _ _ => trivial) (make_agree present
    (fun _ => ⟨trivial, Leads.setSlot _ _ _ _⟩) making fun _ _ =>
    ⟨trivial, Leads.setSlot _ _ _ _, trivial⟩)

end Fragment

end ShellToDeno
