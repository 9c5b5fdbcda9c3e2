import ShellToDeno.Proofs.Quoting.Literals
import ShellToDeno.Proofs.Fragment.History

/-!
# Joined literals

Literals that are parts of one argument are escaped one by one and joined. The joined template
stands for the joined text, unless a part that ends in a dollar sign meets one that begins with a
brace: then the template begins a substitution (`Arguments.combine_literals`).
-/
namespace ShellToDeno

/-- Literal text as it comes: from a node, or as one value of a brace expression. -/
inductive LiteralPart where
  | node (n : Node)
  | text (t : Text)

namespace LiteralPart

def make (c : Compiler) (context : Context) : LiteralPart → Compile FragmentId
  | node n => c.compile n context
  | text t => Arguments.literal t

inductive Means : LiteralPart → Text → Prop where
  | node {n : Node} {value : Text} (means : n.Means value) : (LiteralPart.node n).Means value
  | text (t : Text) : (LiteralPart.text t).Means t

/-- How the value of a part is written. -/
def valueForm : LiteralPart → Text → Text
  | node n, value => n.valueForm value
  | text _, value => Js.template (Js.templateInnards value)

theorem Means.makes {part : LiteralPart} {value : Text} (means : part.Means value)
    (registry : Registry)
    (fuel : Nat) (context : Context) :
    ∃ fields : Fields, fields.Literal value ∧
      Makes (part.make (.ofFuel registry (fuel + 1)) context) fields ∧
      fields.text? .value = some (part.valueForm value) := by
  cases means with
  | node means =>
    obtain ⟨fields, literal, makes, _, written⟩ := means.makes_value registry fuel context
    exact ⟨fields, literal, makes, written⟩
  | text =>
    obtain ⟨fields, literal, makes, _, written⟩ := Arguments.literal_makes value
    exact ⟨fields, literal, makes, written⟩

end LiteralPart

namespace CompileState
variable {s t u : CompileState} {id : FragmentId} {value : Text}

/-- A fragment that holds a literal, whatever has been read of it. -/
def IsLiteral (s : CompileState) (id : FragmentId) (value : Text) : Prop :=
  ∃ fields, fields.Literal value ∧ s.Holds id fields

theorem IsLiteral.of_eq (literal : s.IsLiteral id value)
    (same : t.fragments[id]? = s.fragments[id]?) : t.IsLiteral id value := by
  obtain ⟨fields, text, f, present, inner⟩ := literal
  exact ⟨fields, text, f, same.trans present, inner⟩

/-- No literal is spoiled, and nothing else has changed. -/
structure KeepsLiterals (s t : CompileState) : Prop where
  size : t.fragments.size = s.fragments.size
  holds : ∀ {j v fields}, fields.Literal v → s.Holds j fields → t.Holds j fields
  frame : ∀ {j}, (∀ v, ¬s.IsLiteral j v) → t.fragments[j]? = s.fragments[j]?

theorem KeepsLiterals.refl (s : CompileState) : KeepsLiterals s s :=
  ⟨rfl, fun _ holds => holds, fun _ => rfl⟩

theorem KeepsLiterals.keeps (kept : KeepsLiterals s t) (literal : s.IsLiteral id value) :
    t.IsLiteral id value := by
  obtain ⟨fields, text, holds⟩ := literal
  exact ⟨fields, text, kept.holds text holds⟩

theorem KeepsLiterals.trans (first : KeepsLiterals s t) (second : KeepsLiterals t u) :
    KeepsLiterals s u := by
  refine ⟨second.size.trans first.size, fun text holds =>
    second.holds text (first.holds text holds), ?_⟩
  intro j other
  have same := first.frame other
  exact (second.frame fun v literal => other v (literal.of_eq same.symm)).trans same

theorem Holds.inside {fields : Fields} (holds : s.Holds id fields) : id < s.fragments.size := by
  obtain ⟨f, present, _⟩ := holds
  exact (Array.getElem?_eq_some_iff.1 present).1

theorem IsLiteral.keeps (literal : s.IsLiteral id value) (registry : Registry) (fuel : Nat)
    (form : Option Form) :
    KeepsLiterals s (Compile.run s ((Compiler.ofFuel registry fuel).readAny id form)).2 := by
  have given := literal
  obtain ⟨fields, text, holds⟩ := given
  have spared := Holds.readAny text.texts registry fuel form holds
  refine ⟨spared.2.size, ?_, ?_⟩
  · intro j v others otherText otherHolds
    by_cases same : j = id
    · subst same
      exact (Holds.readAny otherText.texts registry fuel form otherHolds).1
    · exact spared.2.holds same otherHolds
  · intro j other
    apply spared.2.frame
    rintro rfl
    exact other value literal

/-- The forms that parts of one argument share can be read of any literal. -/
theorem IsLiteral.run_read (literal : s.IsLiteral id value) (registry : Registry) (fuel : Nat)
    {form : Form} (shared : form ∈ [Form.argument, .quotedInnards, .templateInnards]) :
    ∃ answer t, Compile.run s ((Compiler.ofFuel registry (fuel + 1)).read id form) =
      (.ok answer, t) ∧
      KeepsLiterals s t ∧ (form = .templateInnards → answer = some (Js.templateInnards value)) := by
  have given := literal
  obtain ⟨fields, text, holds⟩ := given
  have direct : fields.Direct form := by
    simp only [List.mem_cons, List.not_mem_nil, or_false] at shared
    rcases shared with rfl | rfl | rfl
    · exact .inl rfl
    · exact .inr (by simp [text.quoted])
    · exact .inr (by simp [text.innards])
  obtain ⟨t, run, _⟩ := holds.run_read text.texts direct registry fuel
  refine ⟨_, t, run, ?_, ?_⟩
  · have keeps := literal.keeps registry (fuel + 1) (some form)
    have after : (Compile.run s ((Compiler.ofFuel registry (fuel + 1)).readAny id (some form))).2 =
        t :=
      congrArg Prod.snd run
    rwa [after] at keeps
  · rintro rfl
    exact text.innards

/-- Some literals, each with its value. -/
def Literals (s : CompileState) (entries : List (FragmentId × Text)) : Prop :=
  ∀ entry ∈ entries, s.IsLiteral entry.1 entry.2

/-- A literal that writes its value as a part does. -/
def IsPart (s : CompileState) (id : FragmentId) (part : LiteralPart) (value : Text) : Prop :=
  ∃ fields, fields.Literal value ∧ fields.text? .value = some (part.valueForm value) ∧
  s.Holds id fields

theorem KeepsLiterals.isPart (kept : KeepsLiterals s t) {part : LiteralPart}
    (isPart : s.IsPart id part value) :
    t.IsPart id part value := by
  obtain ⟨fields, text, written, holds⟩ := isPart
  exact ⟨fields, text, written, kept.holds text holds⟩

theorem KeepsLiterals.literals (keeps : KeepsLiterals s t) {entries : List (FragmentId × Text)}
    (literals : s.Literals entries) : t.Literals entries :=
  fun entry inside => keeps.keeps (literals entry inside)

theorem Literals.afterAll {entries : List (FragmentId × Text)} (literals : s.Literals entries)
    (registry : Registry) (fuel : Nat) {history : List (FragmentId × Option Form)}
    (inside : ∀ reading ∈ history, reading.1 ∈ entries.map Prod.fst) :
    KeepsLiterals s (s.afterAll (.ofFuel registry fuel) (history.map fun r => .get r.1 r.2)) := by
  induction history generalizing s with
  | nil => exact .refl s
  | cons reading history ih =>
    obtain ⟨entry, listed, same⟩ := List.mem_map.1 (inside reading (by simp))
    have first := (literals entry listed).keeps registry fuel reading.2
    rw [same] at first
    exact first.trans (ih (first.literals literals) fun r later => inside r (by simp [later]))

end CompileState

namespace Arguments
open CompileState
variable {s : CompileState} {entries : List (FragmentId × Text)} (registry : Registry) (fuel : Nat)

theorem run_allHave (literals : s.Literals entries) {form : Form}
    (shared : form ∈ [Form.argument, .quotedInnards, .templateInnards]) :
    ∃ all t, Compile.run s (allHave (.ofFuel registry (fuel + 1)) form (entries.map Prod.fst)) =
      (.ok all, t) ∧ KeepsLiterals s t ∧ (form = .templateInnards → all = true) := by
  induction entries generalizing s with
  | nil => exact ⟨true, s, rfl, .refl s, fun _ => rfl⟩
  | cons entry entries ih =>
    obtain ⟨answer, t, read, keeps, innards⟩ :=
      (literals entry (by simp)).run_read registry fuel shared
    obtain ⟨all, u, later, keepsLater, rest⟩ :=
      ih (keeps.literals fun other inside => literals other (by simp [inside]))
    have has : Compile.run s ((Compiler.ofFuel registry (fuel + 1)).has entry.1 form) =
        (.ok answer.isSome, t) := by
      rw [Compiler.has, Compile.run_bind_ok read, Compile.run_pure]
    rw [List.map_cons, allHave, Compile.run_bind_ok has]
    cases answer with
    | none => exact ⟨false, t, rfl, keeps, fun same => absurd (innards same) (by simp)⟩
    | some text => exact ⟨all, u, later, keeps.trans keepsLater, rest⟩

theorem run_joined (literals : s.Literals entries) :
    ∃ t, Compile.run s ((entries.map Prod.fst).mapM fun id => do
        return (← (Compiler.ofFuel registry (fuel + 1)).read id .templateInnards).getD []) =
      (.ok ((entries.map Prod.snd).map Js.templateInnards), t) ∧ KeepsLiterals s t := by
  induction entries generalizing s with
  | nil => exact ⟨s, rfl, .refl s⟩
  | cons entry entries ih =>
    obtain ⟨answer, t, read, keeps, innards⟩ :=
      (literals entry (by simp)).run_read registry fuel (show Form.templateInnards ∈ _ by simp)
    obtain ⟨u, later, keepsLater⟩ :=
      ih (keeps.literals fun other inside => literals other (by simp [inside]))
    refine ⟨u, ?_, keeps.trans keepsLater⟩
    rw [List.map_cons, List.mapM_cons, Compile.run_bind, Compile.run_bind_ok read, Compile.run_pure,
      innards rfl]
    simp only [Compile.run_bind_ok later, Compile.run_pure]
    rfl

theorem run_shared (literals : s.Literals entries) (form : Form)
    (shared : form ∈ [Form.argument, .quotedInnards, .templateInnards])
    (pieced : List FragmentId → Recipe) :
    ∃ recipe t, Compile.run s (do
        if ← allHave (.ofFuel registry (fuel + 1)) form (entries.map Prod.fst) then
          return (form, Recipe.joined form (entries.map Prod.fst))
        return (form, pieced (entries.map Prod.fst))) = (.ok (form, recipe), t) ∧
      KeepsLiterals s t ∧
      (recipe = .joined form (entries.map Prod.fst) ∨ recipe = pieced (entries.map Prod.fst)) ∧
      (form = .templateInnards → recipe = .joined .templateInnards (entries.map Prod.fst)) := by
  obtain ⟨all, t, run, keeps, innards⟩ := run_allHave registry fuel literals shared
  rw [Compile.run_bind_ok run]
  cases all with
  | true =>
    refine ⟨_, t, rfl, keeps, .inl rfl, ?_⟩
    rintro rfl
    rfl
  | false => exact ⟨_, t, rfl, keeps, .inr rfl, fun same => absurd (innards same) (by simp)⟩

/-- The forms of joined literals: some are joined from the same form of each part, others piece by
piece. -/
theorem run_combine_fields (literals : s.Literals entries) (joins : entries.length ≠ 1) :
    ∃ argument quoted t, Compile.run s
    (combine (.ofFuel registry (fuel + 1)) (entries.map Prod.fst)) =
      (.ok t.fragments.size, t.push (.ofFields [(.argument, argument), (.quotedInnards, quoted),
        (.templateInnards, .joined .templateInnards (entries.map Prod.fst))])) ∧ KeepsLiterals s t ∧
      (argument = .joined .argument (entries.map Prod.fst) ∨
        argument = .joinedArgument (entries.map Prod.fst)) ∧
      (quoted = .joined .quotedInnards (entries.map Prod.fst) ∨
        quoted = .joinedQuoted (entries.map Prod.fst)) := by
  obtain ⟨argument, t, runArgument, keepsArgument, argumentFrom, _⟩ :=
    run_shared registry fuel literals .argument (by simp) .joinedArgument
  replace literals := keepsArgument.literals literals
  obtain ⟨quoted, u, runQuoted, keepsQuoted, quotedFrom, _⟩ :=
    run_shared registry fuel literals .quotedInnards (by simp) .joinedQuoted
  replace literals := keepsQuoted.literals literals
  obtain ⟨innards, v, runInnards, keepsInnards, _, joined⟩ :=
    run_shared registry fuel literals .templateInnards (by simp) .joinedTemplate
  obtain rfl := joined rfl
  refine ⟨argument, quoted, v, ?_, (keepsArgument.trans keepsQuoted).trans keepsInnards,
    argumentFrom, quotedFrom⟩
  have several : ∀ only, entries.map Prod.fst ≠ [only] := by
    intro only same
    have single := congrArg List.length same
    rw [List.length_map] at single
    exact joins single
  rw [combine.eq_2 _ _ several, Compile.run_bind]
  simp only [sharedForms, List.mapM_cons, List.mapM_nil]
  rw [Compile.run_bind_ok runArgument, Compile.run_bind, Compile.run_bind_ok runQuoted,
    Compile.run_bind, Compile.run_bind_ok runInnards]
  rfl

theorem run_combine (literals : s.Literals entries) (several : 2 ≤ entries.length) :
    ∃ fields t, Compile.run s (combine (.ofFuel registry (fuel + 1)) (entries.map Prod.fst)) =
      (.ok t.fragments.size, t.push (.ofFields fields)) ∧ KeepsLiterals s t ∧
      fields.look .templateInnards = some (.joined .templateInnards (entries.map Prod.fst)) := by
  obtain ⟨_, _, t, run, keeps, _⟩ := run_combine_fields registry fuel literals (by omega)
  exact ⟨_, t, run, keeps, rfl⟩

theorem run_read_combined (literals : s.Literals entries) {fields : Fields}
    (joined : fields.look .templateInnards = some
      (.joined .templateInnards (entries.map Prod.fst))) :
    ∃ t, Compile.run (s.push (.ofFields fields))
      ((Compiler.ofFuel registry (fuel + 2)).read s.fragments.size .templateInnards) =
      (.ok (some ((entries.map Prod.snd).map Js.templateInnards).flatten), t) := by
  have marked : ((s.push (.ofFields fields)).setSlot s.fragments.size .templateInnards
      .cooking).Literals entries := by
    intro entry inside
    obtain ⟨others, text, holds⟩ := literals entry inside
    exact ⟨others, text, (touches_setSlot _).holds (Nat.ne_of_lt holds.inside) (holds.push _)⟩
  obtain ⟨t, run, keeps⟩ := run_joined registry fuel marked
  refine ⟨_, run_read_push joined (t := t) ?_ ?_⟩
  · simp only [Fragment.cook, Compile.run_bind_ok run, Compile.run_pure]
  · rw [keeps.size, size_setSlot]
    simp [push]

theorem run_make {parts : List LiteralPart} {values : List Text}
    (means : List.Forall₂ LiteralPart.Means parts values) (context : Context) (s : CompileState) :
    ∃ ids t, Compile.run s (parts.mapM (LiteralPart.make (.ofFuel registry (fuel + 1)) context)) =
      (.ok ids, t) ∧ ids.length = parts.length ∧ t.Literals (ids.zip values) ∧
      (∀ entry ∈ ids.zip (parts.zip values), t.IsPart entry.1 entry.2.1 entry.2.2) ∧
      ∀ id fields, s.Holds id fields → t.Holds id fields := by
  induction means generalizing s with
  | nil => exact ⟨[], s, rfl, rfl, by simp [Literals], by simp, fun _ _ holds => holds⟩
  | @cons part value parts values first _ ih =>
    obtain ⟨fields, literal, makes, written⟩ := first.makes registry fuel context
    obtain ⟨ids, t, run, length, literals, each, keeps⟩ := ih (s.push (.ofFields fields))
    have made : t.Holds s.fragments.size fields := keeps _ _ (holds_push fields)
    refine ⟨s.fragments.size :: ids, t, ?_, by simp [length], ?_, ?_, ?_⟩
    · rw [List.mapM_cons, Compile.run_bind_ok (makes s), Compile.run_bind_ok run, Compile.run_pure]
    · intro entry inside
      rcases List.mem_cons.1 inside with rfl | later
      · exact ⟨fields, literal, made⟩
      · exact literals entry later
    · intro entry inside
      rcases List.mem_cons.1 inside with rfl | later
      · exact ⟨fields, literal, written, made⟩
      · exact each entry later
    · intro id others holds
      exact keeps id others (holds.push _)

/-- Parts that are literals, made and then read in any way before they are joined: the joined
template stands for the joined text, unless a part meets the ones after it. -/
theorem combine_literals (registry : Registry) {fuel : Nat} (enough : 2 ≤ fuel) (context : Context)
    (s : CompileState) {parts : List LiteralPart} {values : List Text}
    (means : List.Forall₂ LiteralPart.Means parts values) :
    ∃ ids t, Compile.run s (parts.mapM (LiteralPart.make (.ofFuel registry fuel) context)) =
      (.ok ids, t) ∧ ids.length = parts.length ∧
      ∀ history : List (FragmentId × Option Form), (∀ reading ∈ history, reading.1 ∈ ids) →
      ∀ chosen : List (FragmentId × Text), chosen ⊆ ids.zip values → 2 ≤ chosen.length →
      ∃ id u innards v,
        Compile.run (t.afterAll (.ofFuel registry fuel) (history.map fun r => .get r.1 r.2))
          (combine (.ofFuel registry fuel) (chosen.map Prod.fst)) = (.ok id, u) ∧
        Compile.run u ((Compiler.ofFuel registry fuel).read id .templateInnards) =
          (.ok (some innards), v) ∧
        Js.templateValue innards =
          if Js.MeetsLater (chosen.map Prod.snd) then .error .substitution
          else .ok (chosen.map Prod.snd).flatten := by
  obtain ⟨fuel, rfl⟩ : ∃ less, fuel = less + 2 := ⟨fuel - 2, by omega⟩
  obtain ⟨ids, t, made, length, literals, _⟩ := run_make registry (fuel + 1) means context s
  refine ⟨ids, t, made, length, fun history inside chosen subset several => ?_⟩
  have listed : ∀ reading ∈ history, reading.1 ∈ (ids.zip values).map Prod.fst := by
    intro reading member
    rw [List.map_fst_zip]
    · exact inside reading member
    · rw [length, means.length_eq]
  have read := literals.afterAll registry (fuel + 2) listed
  have kept : Literals _ chosen := fun entry member => read.literals literals entry (subset member)
  obtain ⟨fields, u, combined, keeps, joined⟩ := run_combine registry (fuel + 1) kept several
  obtain ⟨v, innards⟩ := run_read_combined registry fuel (keeps.literals kept) joined
  exact ⟨_, _, _, v, combined, innards, Js.templateValue_flatten _⟩

/-- The parts of `"$"'{x}'`. -/
def dollarAndBraces : List LiteralPart :=
  [.node (.leaf .stringContent "$"), .node (.leaf .rawString "'\x7bx\x7d'")]

/-- A dollar sign and a name in braces, each in quotes of its own, begin a substitution when
joined. -/
theorem combine_literals_dollar_brace :
    List.Forall₂ LiteralPart.Means dollarAndBraces ["$", "\x7bx\x7d"] ∧ ∃ ids t id u innards v,
      Compile.run .empty (dollarAndBraces.mapM (LiteralPart.make (.ofFuel .standard 2) .none)) =
        (.ok ids, t) ∧
      Compile.run t (combine (.ofFuel .standard 2) ids) = (.ok id, u) ∧
      Compile.run u ((Compiler.ofFuel .standard 2).read id .templateInnards) =
        (.ok (some innards), v) ∧
      Js.templateValue innards = .error .substitution := by
  have means : List.Forall₂ LiteralPart.Means dollarAndBraces ["$", "\x7bx\x7d"] :=
    .cons (.node (.stringContent rfl)) (.cons (.node (.rawString rfl rfl)) .nil)
  obtain ⟨ids, t, made, length, joins⟩ :=
    combine_literals .standard (by decide : 2 ≤ 2) .none .empty means
  have two : ids.length = 2 := length
  have names : (ids.zip (["$", "\x7bx\x7d"] : List Text)).map Prod.fst = ids :=
    List.map_fst_zip two.le
  have texts : (ids.zip (["$", "\x7bx\x7d"] : List Text)).map Prod.snd = ["$", "\x7bx\x7d"] :=
    List.map_snd_zip two.ge
  obtain ⟨id, u, innards, v, combined, read, value⟩ :=
    joins [] (by simp) _ (List.Subset.refl _) (by simp [two])
  rw [names] at combined
  rw [texts] at value
  exact ⟨means, ids, t, id, u, innards, v, made, combined, read, value⟩

end Arguments

end ShellToDeno
