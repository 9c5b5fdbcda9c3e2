import ShellToDeno.Proofs.Compile.Blocks

/-!
# Steps note the features they use

A clean state holds only texts that its own features account for. The ledger of words asks that
states stay clean and that no feature is forgotten, so that a step that writes the name of a helper
has to note its feature before.

The nodes that a step is given are tidy: they hold no capital letters, and no ANSI-C strings that
spell capital letters with escapes.
-/
namespace ShellToDeno

open Text Compile

namespace Node

/-- The nodes that the compiler may come to from a node: those in its tree, and those of the
statements to which lists with a jump are rewritten. -/
inductive Reaches : Node → Node → Prop
  | here (n : Node) : Reaches n n
  | child {n c m : Node} : c ∈ n.children → Reaches c m → Reaches n m
  | guard {n statement m : Node} : n.kind = .list → guard? n = some statement →
      Reaches statement m → Reaches n m

/-- No ANSI-C string that the compiler may come to spells a capital letter. A tree without any such
strings, also in the statements to which its lists are rewritten, is one of these. -/
def SpellsPlain (n : Node) : Prop := ∀ m, n.Reaches m → m.kind = .ansiString → Plain m.ansiValue

/-- Nothing that the compiler may come to holds or spells a capital letter. -/
def Tidy (n : Node) : Prop :=
  ∀ m, n.Reaches m → (m.kind = .ansiString → Plain m.ansiValue) ∧ Plain m.text ∧ Plain m.indent

namespace Tidy
variable {n : Node}

theorem neat (tidy : n.Tidy) : n.Neat :=
  ⟨(tidy n (.here n)).2.1, (tidy n (.here n)).2.2, (tidy n (.here n)).1⟩

theorem child (tidy : n.Tidy) {c : Node} (member : c ∈ n.children) : c.Tidy :=
  fun m reached => tidy m (.child member reached)

theorem guard (tidy : n.Tidy) {statement : Node} (isList : n.kind = .list)
    (guarded : guard? n = some statement) : statement.Tidy :=
  fun m reached => tidy m (.guard isList guarded reached)

theorem leaf {text : Text} (plain : Plain text) : (leaf .word text).Tidy := by
  intro m reached
  cases reached with
  | here => exact ⟨nofun, plain, .nil⟩
  | child member _ => cases member
  | guard isList _ _ => cases isList

end Tidy

end Node

/-- What a fragment holds is accounted for, and the commands in it are made from tidy nodes. -/
structure Fragment.Clean (features : List Feature) (f : Fragment) : Prop where
  recipes : ∀ entry ∈ f.supplied, entry.2.Clean features ∧
    ∀ call ∈ entry.2.call?, ∀ n ∈ call.nameNode :: call.arguments, n.Tidy
  slots : ∀ entry ∈ f.slots, ∀ text, entry.2 = .known (some text) → Says features text
  values : ∀ texts ∈ f.values, ∀ t ∈ texts, Plain t

/-- All that a state holds is accounted for by its features. -/
def CompileState.Clean (s : CompileState) : Prop :=
  ∀ (id : FragmentId) (f : Fragment), s.fragments[id]? = some f → f.Clean s.features.used

theorem Fragment.Clean.mono {features more : List Feature} {f : Fragment}
    (clean : f.Clean features) (within : features ⊆ more) : f.Clean more where
  recipes entry member := ⟨(clean.recipes entry member).1.mono within,
    (clean.recipes entry member).2⟩
  slots entry member text known := Spelled.later (clean.slots entry member text known) within
  values := clean.values

/-- The ledger of words: levels do not count, and states are clean. -/
def Ledger.words : Ledger where
  Fine := CompileState.Clean
  Leads s t := s.features.used ⊆ t.features.used
  Low _ _ _ := True
  Made _ _ := True
  Unread _ _ := True
  Known _ _ _ _ := True
  Fits _ n := n.Tidy
  strict := True
  refl _ := List.Subset.refl _
  trans := List.Subset.trans
  low _ _ := trivial
  high _ _ := trivial
  made _ _ := trivial
  known _ _ := trivial
  child tidy := tidy.child
  leaf _ plain := .leaf (plain trivial)
  neat tidy _ := tidy.neat
  notes step _ := step
  values clean _ found := (clean _ _ found).values
  side {depth _} tidy := ⟨depth, Nat.le_refl _, fun _ => tidy.child, fun _ => trivial⟩
  quiet {s t} fragments _ _ _ features clean := by
    have kept : s.features.used ⊆ t.features.used := by
      intro feature member
      simpa [Features.has] using features (by simpa [Features.has] using member)
    exact ⟨fun id f found => (clean id f (fragments ▸ found)).mono kept, kept⟩
  function _ clean := ⟨clean, fun step later => ⟨later, step⟩⟩
  push {s _ fields} values isFallback clean rests own plain := by
    refine ⟨fun id g found => ?_, List.Subset.refl _, trivial, trivial, fun _ => trivial⟩
    change (s.fragments.push _)[id]? = some g at found
    rw [Array.getElem?_push] at found
    split at found
    · obtain rfl := Option.some.inj found
      refine ⟨fun entry member => ?_, by simp [Fragment.ofFields], plain trivial⟩
      obtain ⟨field, among, rfl⟩ := List.mem_map.1 member
      refine ⟨own trivial field among, fun call given => ?_⟩
      obtain ⟨_, _, tidy⟩ := (rests field among).2 call given
      exact tidy
    · exact clean id g found

/-- A step that may give a text, which is accounted for. -/
abbrev NotesText (s : CompileState) (x : Compile (Option Text)) : Prop :=
    WritesAny Ledger.words s x x

/-- A compiler all parts of which note the features they use. -/
structure Compiler.Honest (c : Compiler) : Prop where
  registry : ∀ b ∈ c.registry.builtins, b.IsPlain
  compile : ∀ {s : CompileState} {n : Node} (context : Context), n.Tidy →
    Agrees Ledger.words s (c.compile n context) (c.compile n context)
  readAny : ∀ {s : CompileState} (id : FragmentId) (form : Option Form),
    NotesText s (c.readAny id form)

variable {c : Compiler} {s : CompileState} {id : FragmentId}

namespace Compiler.Honest
variable (honest : c.Honest)
include honest

theorem reads (level : Nat) : ReadsAlike Ledger.words level c c :=
  ⟨fun form _ => (honest.readAny _ form).imp fun _ _ _ known => ⟨trivial, known⟩⟩

theorem serves (depth : Nat) : Serves Ledger.words depth c c :=
  ⟨rfl, fun _ => honest.registry, fun context tidy => (honest.compile context tidy).imp
    fun _ _ _ _ => ⟨trivial, trivial, trivial⟩, honest.reads _⟩

theorem read (id : FragmentId) (form : Form) : NotesText s (c.read id form) :=
    honest.readAny id form

theorem readFirst (id : FragmentId) (forms : List Form) : NotesText s (c.readFirst id forms) :=
  (honest.reads 0).readFirst forms trivial

end Compiler.Honest

namespace Fragment

theorem mem_of_slot? {f : Fragment} {form : Form} {slot : Slot} (found : f.slot? form = some slot) :
    (form, slot) ∈ f.slots := by
  obtain ⟨before, after, split, _⟩ := List.lookup_eq_some_iff.1 found
  simp [split]

/-- The quotes around a number are no letters. -/
theorem spelled_quotedNumber? {words : List Text} {literal digits : Text}
    (found : quotedNumber? literal = some digits) (spelled : Spelled words literal) :
    Spelled words digits := by
  unfold quotedNumber? at found
  extract_lets isQuote at found
  split at found
  · cases found
  next first rest =>
  cases ended : rest.getLast? with
  | none => simp [ended] at found
  | some last =>
    simp only [ended, Option.ite_none_right_eq_some, Bool.and_eq_true, Option.some.injEq] at found
    obtain ⟨⟨⟨_, quoted⟩, _⟩, rfl⟩ := found
    have whole : rest = rest.dropLast ++ [last] := (List.dropLast_append_getLast? last ended).symm
    have inside := spelled.2
    rw [whole] at inside
    refine inside.of_append_left ?_
    simp only [isQuote, Bool.or_eq_true, beq_iff_eq] at quoted
    rcases quoted with (rfl | rfl) | rfl <;> decide

section
variable (honest : c.Honest)
include honest

theorem via_notes (form : Form) {f : Text → Text}
    (kept : ∀ {t text}, Ledger.words.Says t text → Ledger.words.Says t (f text)) :
    NotesText s (via c id form f) :=
  via_agrees (honest.reads 0) form trivial fun _ _ _ => kept

omit honest in
theorem says_negated {text : Text} (known : Ledger.words.Says s text) :
    Ledger.words.Says s ("!(" ++ text ++ ")") :=
  known.within (by decide) (by decide)

theorem failureOrNegated_notes : NotesText s (do
    match ← c.read id .failure with
    | some v => return some v
    | none => via c id .condition fun v => "!(" ++ v ++ ")") := by
  refine (honest.read id _).bind fun found t _ known => ?_
  cases found with
  | some v => exact .pure known
  | none => exact via_notes honest _ says_negated

theorem derive_notes (form : Form) : NotesText s (derive c id form) := by
  cases form with
  | singleQuoted => exact via_notes honest _ fun known => known.within (by decide) (by decide)
  | redirectedCommand => exact honest.read id _
  | chainedCommand => exact honest.read id _
  | plainCall => exact via_notes honest _ fun known => known.call
  | redirectedCall => exact honest.read id _
  | textCall => exact via_notes honest _ fun known => known.followed (by decide)
  | captureCall =>
    refine (honest.read id _).bind fun found t _ known => ?_
    cases found with
    | some v => exact .present ((known v rfl).within (by decide) (by decide))
    | none =>
      refine Agree.map (honest.read id _) fun found u _ known text mem => ?_
      simp only [Option.mem_def, Option.map_eq_some_iff, Option.bind_eq_some_iff] at mem
      obtain ⟨body, ⟨call, rfl, cut⟩, rfl⟩ := mem
      exact .preceded ((known call rfl).of fun spelled => spelled.cutStart? cut) (by decide)
  | success => exact via_notes honest _ fun known => known.within (by decide) (by decide)
  | failure => exact via_notes honest _ fun known => known.within (by decide) (by decide)
  | templateInnards => exact via_notes honest _ fun known => known.substitution
  | template => exact via_notes honest _ fun known => known.template
  | stringValue =>
    refine (supplies_same id _).bind fun supplied t _ _ => ?_
    have rest {t : CompileState} : NotesText t (c.readFirst id [.template, .textCall]) :=
      honest.readFirst id _
    cases supplied with
    | false => exact rest
    | true =>
      refine (honest.read id _).bind fun found u _ known => ?_
      cases found with
      | some v => exact .present ((known v rfl).of Js.spelled_stringLiteral)
      | none => exact rest
  | number =>
    refine Agree.map (honest.read id _) fun found t _ known text mem => ?_
    obtain ⟨literal, rfl, number⟩ := Option.bind_eq_some_iff.1 mem
    exact (known literal rfl).of fun spelled => spelled_quotedNumber? number spelled
  | value => exact honest.readFirst id _
  | condition => exact honest.readFirst id _
  | negation =>
    refine (supplies_same id _).bind fun supplied t _ _ => ?_
    cases supplied with
    | false => exact failureOrNegated_notes honest
    | true =>
      refine (honest.read id _).bind fun found u _ known => ?_
      cases found with
      | some v => exact .present (says_negated (known v rfl))
      | none => exact failureOrNegated_notes honest
  | statement => exact honest.readFirst id _
  | _ => exact .absent

/-- A recipe that is accounted for says what is accounted for. -/
theorem cook_notes {recipe : Recipe} (clean : recipe.Clean s.features.used)
    (tidy : ∀ call ∈ recipe.call?, ∀ n ∈ call.nameNode :: call.arguments, n.Tidy) :
    NotesText s (cook c recipe) := by
  by_cases free : recipe.Within fun _ => True
  · exact cook_agrees (honest.reads 5) (fun _ => honest.serves _)
      ⟨⟨free, fun call given => ⟨0, Nat.le_refl _, tidy call given⟩⟩, fun _ => clean⟩
  · cases recipe with
    | labelled label form =>
      refine Agree.get.bind fun found t _ _ => ?_
      split
      · exact honest.readAny _ form
      · exact .fault _
    | _ => simp [Recipe.Within] at free

end

theorem setSlot_clean {f : Fragment} {features : List Feature} (clean : f.Clean features)
    (form : Form)
    {slot : Slot} (known : ∀ text, slot = .known (some text) → Says features text) :
    (f.setSlot form slot).Clean features where
  recipes := clean.recipes
  slots := by
    intro entry member text same
    rcases List.mem_cons.1 member with rfl | old
    · exact known text same
    · exact clean.slots entry (List.mem_filter.1 old).1 text same
  values := clean.values

end Fragment

theorem CompileState.Clean.setSlot (clean : s.Clean) (id : FragmentId) (form : Form) {slot : Slot}
    (known : ∀ text, slot = .known (some text) → Says s.features.used text) :
    (s.setSlot id form slot).Clean := by
  intro place f found
  rw [CompileState.getElem?_setSlot] at found
  obtain ⟨g, present, rfl⟩ := Option.map_eq_some_iff.1 found
  split
  · exact Fragment.setSlot_clean (clean place g present) form known
  · exact clean place g present

namespace Fragment
variable (honest : c.Honest)
include honest

theorem make_notes {f : Fragment} (clean : f.Clean s.features.used)
    (present : s.fragments[id]? = some f) (form : Form) : NotesText s (make c id form) := by
  have marked (fine : Ledger.words.Fine s) : Ledger.words.Fine (s.setSlot id form .cooking) :=
    CompileState.Clean.setSlot fine id form (by simp)
  have kept {value : Option Text} {t : CompileState} (fine : Ledger.words.Fine t)
      (known : ∀ text ∈ value, Ledger.words.Says t text) :
      Ledger.words.Fine (t.setSlot id form (.known value)) :=
    CompileState.Clean.setSlot fine id form fun text same =>
      known text (Slot.known.inj same) trivial
  refine make_agree present (fun fine => ⟨marked fine, List.Subset.refl _⟩) ?_
    fun fine known => ⟨kept fine known, List.Subset.refl _, known⟩
  rw [making]
  split
  · next recipe given =>
    obtain ⟨own, tidy⟩ := clean.recipes _ (mem_of_recipe? given)
    exact cook_notes honest own tidy
  · exact derive_notes honest form

theorem read_notes (id : FragmentId) (form : Option Form) : NotesText s (read c id form) := by
  intro fine
  have step : NotesText s (read c id form) := by
    cases form with
    | none => exact .fault _
    | some form =>
      cases present : s.fragments[id]? with
      | none =>
        have missing : run s (read c id (some form)) = run s (throw .outOfRange) := by
          rw [read, run_bind, run_fragment, present]
          rfl
        exact .of_run missing missing (.fault _)
      | some f =>
        have clean : f.Clean s.features.used := fine id f present
        refine read_agree present (fun given _ text member _ => ?_)
          (make_notes honest clean present form)
        exact clean.slots _ (mem_of_slot? given) text (congrArg Slot.known member)
  exact step fine

end Fragment

/-- A compiler is honest with any amount of fuel. -/
theorem Compiler.honest_ofFuel {registry : Registry} (plain : ∀ b ∈ registry.builtins, b.IsPlain)
    (fuel : Nat) : (ofFuel registry fuel).Honest := by
  induction fuel with
  | zero => exact ⟨plain, fun _ _ => .fault _, fun _ _ => .fault _⟩
  | succ fuel ih =>
    refine ⟨plain, fun {s n} context tidy => ?_, fun id form => Fragment.read_notes ih id form⟩
    have settled : Settle Ledger.words 0 s (node (ofFuel registry fuel) n context)
        (node (ofFuel registry fuel) n context) :=
      settle_node (fun depth _ => ih.serves depth) (fun _ => tidy.neat) (fun _ => tidy.child)
        (fun isList _ => tidy.guard isList) context
    exact settled.agrees

end ShellToDeno
