import Mathlib.Algebra.BigOperators.Group.List.Basic
import Mathlib.Data.List.Forall2
import ShellToDeno.Proofs.Quoting.CommandLine
import ShellToDeno.Proofs.Quoting.Joined

/-!
# Arguments that multiply

Brace expressions make one argument into many, one for each choice of a value for each of them. A
choice is a list of indices, one for each part (`choices`). Expanding the parts puts the literals of
a choice in their places (`Fills`): one place after the other, in what the places before have left.
-/
namespace ShellToDeno

namespace CompileState

/-- The second state is the first with more fragments. -/
inductive Grows (s : CompileState) : CompileState → Prop where
  | refl : Grows s s
  | push {t : CompileState} (grows : Grows s t) (f : Fragment) : Grows s (t.push f)

variable {s t u : CompileState} {id : FragmentId}

theorem Grows.trans (first : Grows s t) (second : Grows t u) : Grows s u := by
  induction second with
  | refl => exact first
  | push _ f ih => exact ih.push f

theorem size_push (s : CompileState) (f : Fragment) :
    (s.push f).fragments.size = s.fragments.size + 1 := by
  simp [push]

theorem Grows.size_le (grows : Grows s t) : s.fragments.size ≤ t.fragments.size := by
  induction grows with
  | refl => exact Nat.le_refl _
  | push _ f ih =>
    rw [size_push]
    omega

theorem Grows.getElem?_eq (grows : Grows s t) (inside : id < s.fragments.size) :
    t.fragments[id]? = s.fragments[id]? := by
  induction grows with
  | refl => rfl
  | push grows f ih =>
    have below := Nat.lt_of_lt_of_le inside grows.size_le
    rw [CompileState.push, Array.getElem?_push, if_neg (Nat.ne_of_lt below), ih]

/-- How many values a part can take. -/
def options (s : CompileState) (id : FragmentId) : Nat :=
  match s.fragments[id]?.bind Fragment.values with
  | none => 1
  | some values => values.length

end CompileState

namespace Arguments
open CompileState

/-! Choices -/

/-- One index below each of some widths, in all ways, the first index changing last. -/
def choices : List Nat → List (List Nat)
  | [] => [[]]
  | width :: widths => (List.range width).flatMap fun k => (choices widths).map (k :: ·)

variable {widths choice : List Nat}

theorem mem_choices : choice ∈ choices widths ↔ List.Forall₂ (· < ·) choice widths := by
  induction widths generalizing choice with
  | nil => simp [choices]
  | cons width widths ih =>
    simp only [choices, List.mem_flatMap, List.mem_range, List.mem_map, ih]
    constructor
    · rintro ⟨k, low, rest, later, rfl⟩
      exact .cons low later
    · rintro (_ | ⟨low, later⟩)
      exact ⟨_, low, _, later, rfl⟩

theorem length_choices (widths : List Nat) : (choices widths).length = widths.prod := by
  induction widths with
  | nil => rfl
  | cons width widths ih => simp [choices, List.length_flatMap, ih]

/-- Choices are in lexicographic order, and none is listed twice. -/
theorem pairwise_choices (widths : List Nat) : (choices widths).Pairwise (· < ·) := by
  induction widths with
  | nil => exact List.pairwise_singleton _ _
  | cons width widths ih =>
    rw [choices, List.pairwise_flatMap]
    constructor
    · intro k _
      rw [List.pairwise_map]
      exact ih.imp fun less => List.cons_lt_cons_iff.2 (.inr ⟨rfl, less⟩)
    · refine List.pairwise_lt_range.imp fun {k l} less => ?_
      intro x first y second
      obtain ⟨_, _, rfl⟩ := List.mem_map.1 first
      obtain ⟨_, _, rfl⟩ := List.mem_map.1 second
      exact List.cons_lt_cons_iff.2 (.inl less)

/-- With one more width at the end each choice goes on in all ways. -/
theorem choices_concat (widths : List Nat) (width : Nat) : choices (widths ++ [width]) =
    (choices widths).flatMap fun choice => (List.range width).map fun k => choice ++ [k] := by
  induction widths with
  | nil => simp [choices, ← List.map_eq_flatMap]
  | cons first widths ih =>
    simp [choices, ih, List.flatMap_assoc, List.map_flatMap, List.flatMap_map, Function.comp_def]

/-! What is put in the places -/

/-- A part that multiplies gives way to the literal of the value chosen; any other part stays. -/
inductive Chosen (s t : CompileState) (id : FragmentId) : Nat → FragmentId → Prop where
  | part {f : Fragment} (present : s.fragments[id]? = some f) (single : f.values = none) :
    Chosen s t id 0 id
  | value {f : Fragment} {values : List Text} {k : Nat} {value : Text} {fields : Fields}
      {new : FragmentId}
    (present : s.fragments[id]? = some f) (multiplies : f.values = some values)
    (chosen : values[k]? = some value) (makes : Makes (literal value) fields)
    (fresh : s.fragments.size ≤ new) (made : t.fragments[new]? = some (.ofFields fields)) :
    Chosen s t id k new

/-- Some parts with a choice made for each of them. -/
inductive Fills (s t : CompileState) : List FragmentId → List Nat → List FragmentId → Prop where
  | nil : Fills s t [] [] []
  | cons {id new : FragmentId} {k : Nat} {parts ids : List FragmentId} {choice : List Nat}
    (first : Chosen s t id k new) (rest : Fills s t parts choice ids) :
    Fills s t (id :: parts) (k :: choice) (new :: ids)

variable {s t u : CompileState} {id new : FragmentId} {k : Nat} {parts ids : List FragmentId}

theorem Fills.length_eq (fills : Fills s t parts choice ids) : ids.length = parts.length := by
  induction fills with
  | nil => rfl
  | cons _ _ ih => rw [List.length_cons, List.length_cons, ih]

theorem Chosen.mono (chosen : Chosen s t id k new) (grows : Grows t u) : Chosen s u id k new := by
  cases chosen with
  | part present single => exact .part present single
  | value present multiplies chosen makes fresh made =>
    have inside := (Array.getElem?_eq_some_iff.1 made).1
    exact .value present multiplies chosen makes fresh ((grows.getElem?_eq inside).trans made)

theorem Fills.mono (fills : Fills s t parts choice ids) (grows : Grows t u) :
    Fills s u parts choice ids := by
  induction fills with
  | nil => exact .nil
  | cons first _ ih => exact .cons (first.mono grows) ih

theorem Fills.concat (fills : Fills s t parts choice ids) (last : Chosen s t id k new) :
    Fills s t (parts ++ [id]) (choice ++ [k]) (ids ++ [new]) := by
  induction fills with
  | nil => exact .cons last .nil
  | cons first _ ih => exact .cons first ih

/-- A combination in which the first places are filled and the others are still as they were. -/
def Filled (s t : CompileState) (done rest : List FragmentId) (choice : List Nat)
    (combination : List FragmentId) : Prop :=
  ∃ ids, combination = ids ++ rest ∧ Fills s t done choice ids

/-! Expanding -/

/-- The literals of some values, each a new fragment. -/
theorem run_literals {α : Type} (values : List Text) (use : FragmentId → α) (t : CompileState) :
    ∃ ids u, Compile.run t (values.mapM fun value => return use (← literal value)) =
    (.ok (ids.map use), u) ∧
      Grows t u ∧ List.Forall₂ (fun value id => t.fragments.size ≤ id ∧ ∃ fields,
        Makes (literal value) fields ∧ u.fragments[id]? = some (.ofFields fields)) values ids := by
  induction values generalizing t with
  | nil => exact ⟨[], t, rfl, .refl, .nil⟩
  | cons value values ih =>
    obtain ⟨fields, -, makes, -⟩ := literal_makes value
    have made : Compile.run t (do return use (← literal value)) =
        (.ok (use t.fragments.size), t.push (.ofFields fields)) := by
      rw [Compile.run_bind_ok (makes t), Compile.run_pure]
    obtain ⟨ids, u, run, grows, each⟩ := ih (t.push (.ofFields fields))
    refine ⟨t.fragments.size :: ids, u, ?_, (Grows.refl.push _).trans grows,
      .cons ⟨Nat.le_refl _, fields, makes, ?_⟩
      (each.imp fun value id known => ?_)⟩
    · rw [List.mapM_cons, Compile.run_bind_ok made, Compile.run_bind_ok run, Compile.run_pure,
        List.map_cons]
    · rw [grows.getElem?_eq (by rw [size_push]; exact Nat.lt_succ_self _)]
      simp [push]
    · rw [size_push] at known
      exact ⟨by omega, known.2⟩

/-- Each value by its index. -/
theorem forall₂_range {α β : Type} {R : α → β → Prop} {values : List α} {ids : List β}
    (each : List.Forall₂ R values ids) :
    List.Forall₂ (fun k id => ∃ value, values[k]? = some value ∧ R value id)
      (List.range values.length) ids := by
  rw [List.forall₂_iff_get] at each ⊢
  refine ⟨by rw [List.length_range, each.1], fun k low high => ?_⟩
  rw [List.length_range] at low
  exact ⟨values.get ⟨k, low⟩, by simp, by simpa using each.2 k low high⟩

variable {done rest : List FragmentId} {chosen : List (List Nat)}
    {combinations : List (List FragmentId)}

/-- Filling one more place makes each combination into one for each value. -/
theorem run_expandAt {part : FragmentId} {f : Fragment} {values : List Text}
    (present : s.fragments[part]? = some f) (multiplies : f.values = some values)
    (filled : List.Forall₂ (Filled s t done (part :: rest)) chosen combinations) (grows : Grows s u)
    (later : Grows t u) :
    ∃ results v, Compile.run u (expandAt done.length values combinations) = (.ok results, v) ∧
      Grows u v ∧ List.Forall₂ (Filled s v (done ++ [part]) rest)
        (chosen.flatMap fun choice => (List.range values.length).map fun k => choice ++ [k])
        results := by
  induction filled generalizing u with
  | nil => exact ⟨[], u, rfl, .refl, .nil⟩
  | @cons choice combination chosen combinations first _ ih =>
    obtain ⟨ids, rfl, fills⟩ := first
    obtain ⟨new, v, run, more, each⟩ :=
      run_literals values ((ids ++ part :: rest).set done.length) u
    obtain ⟨results, w, again, last, others⟩ := ih (grows.trans more) (later.trans more)
    refine ⟨new.map ((ids ++ part :: rest).set done.length) ++ results, w, ?_, more.trans last, ?_⟩
    · rw [expandAt, List.flatMapM_cons, Compile.run_bind_ok run]
      exact Compile.run_bind_ok again _
    · rw [List.flatMap_cons]
      refine List.rel_append ?_ others
      rw [List.forall₂_map_left_iff, List.forall₂_map_right_iff]
      refine (forall₂_range each).imp fun k id known => ?_
      obtain ⟨value, found, fresh, fields, makes, made⟩ := known
      have inside := (Array.getElem?_eq_some_iff.1 made).1
      refine ⟨ids ++ [id], ?_, (fills.mono (later.trans (more.trans last))).concat
        (.value present multiplies found makes (Nat.le_trans grows.size_le fresh)
          ((last.getElem?_eq inside).trans made))⟩
      rw [← fills.length_eq, List.set_append_right _ _ (Nat.le_refl _), Nat.sub_self,
        List.set_cons_zero, List.append_assoc, List.singleton_append]

/-- Filling all places that are left. -/
theorem run_expandFrom (inside : ∀ id ∈ rest, id < s.fragments.size) (grows : Grows s t)
    (filled : List.Forall₂ (Filled s t done rest) (choices (done.map s.options)) combinations) :
    ∃ results u, Compile.run t (expandFrom done.length rest combinations) = (.ok results, u) ∧
      Grows t u ∧
      List.Forall₂ (Filled s u (done ++ rest) []) (choices ((done ++ rest).map s.options))
        results := by
  induction rest generalizing done t combinations with
  | nil => exact ⟨combinations, t, rfl, .refl, by simpa using filled⟩
  | cons part rest ih =>
    rw [List.forall_mem_cons] at inside
    obtain ⟨f, present⟩ : ∃ f, s.fragments[part]? = some f :=
      ⟨_, Array.getElem?_eq_getElem inside.1⟩
    have there := (grows.getElem?_eq inside.1).trans present
    have split : done ++ part :: rest = (done ++ [part]) ++ rest := by simp
    have length : done.length + 1 = (done ++ [part]).length := by simp
    rw [expandFrom, Compile.run_bind_ok (run_values? there), split]
    cases found : f.values with
    | none =>
      have width : s.options part = 1 := by simp [options, present, found]
      rw [length]
      refine ih inside.2 grows ?_
      have single : choices ((done ++ [part]).map s.options) =
          (choices (done.map s.options)).map (· ++ [0]) := by
        rw [List.map_append, List.map_singleton, width, choices_concat]
        simp [← List.map_eq_flatMap]
      rw [single, List.forall₂_map_left_iff]
      refine filled.imp fun choice combination known => ?_
      obtain ⟨ids, rfl, fills⟩ := known
      exact ⟨ids ++ [part], by simp, fills.concat (.part present found)⟩
    | some values =>
      have width : s.options part = values.length := by simp [options, present, found]
      obtain ⟨results, u, run, more, expanded⟩ := run_expandAt present found filled grows .refl
      rw [← width, ← choices_concat, ← List.map_singleton, ← List.map_append] at expanded
      obtain ⟨all, v, again, last, complete⟩ := ih inside.2 (grows.trans more) expanded
      refine ⟨all, v, ?_, more.trans last, complete⟩
      dsimp only
      rw [Compile.run_bind_ok run, length, again]

/-- Expanding gives one combination for each choice. -/
theorem run_expand (inside : ∀ id ∈ parts, id < s.fragments.size) :
    ∃ combinations t, Compile.run s (expand parts) = (.ok combinations, t) ∧ Grows s t ∧
      List.Forall₂ (Fills s t parts) (choices (parts.map s.options)) combinations := by
  have start : List.Forall₂ (Filled s s [] parts) (choices (([] : List FragmentId).map s.options))
      [parts] :=
    .cons ⟨[], rfl, .nil⟩ .nil
  obtain ⟨combinations, t, run, grows, filled⟩ := run_expandFrom inside .refl start
  refine ⟨combinations, t, run, grows, filled.imp fun choice combination known => ?_⟩
  obtain ⟨ids, rfl, fills⟩ := known
  rwa [List.append_nil]

/-! Arguments of nodes -/

/-- The parts of some nodes in source order, where a concatenation counts as its own parts. -/
inductive Opens : List Node → List Node → Prop where
  | nil : Opens [] []
  | part {n : Node} {nodes leaves : List Node} (kind : n.kind ≠ .concatenation)
      (rest : Opens nodes leaves) :
    Opens (n :: nodes) (n :: leaves)
  | concatenation {n : Node} {nodes inner leaves : List Node} (kind : n.kind = .concatenation)
    (first : Opens n.children inner) (rest : Opens nodes leaves) :
    Opens (n :: nodes) (inner ++ leaves)

mutual

theorem opens_open_ : ∀ (n : Node) {nodes leaves : List Node}, Opens nodes leaves →
    Opens (n :: nodes) (open_ n ++ leaves)
  | ⟨kind, text, children, indent, start, stop⟩, nodes, leaves, rest => by
    by_cases same : kind = .concatenation
    · subst same
      exact .concatenation rfl (opens_openAll children) rest
    · have alone : open_ ⟨kind, text, children, indent, start, stop⟩ =
          [⟨kind, text, children, indent, start, stop⟩] := by
        cases kind <;> first | rfl | exact absurd rfl same
      rw [alone]
      exact .part same rest

theorem opens_openAll : ∀ nodes : List Node, Opens nodes (openAll nodes)
  | [] => .nil
  | n :: rest => opens_open_ n (opens_openAll rest)

end

theorem Opens.kind {nodes leaves : List Node} (opens : Opens nodes leaves) :
    ∀ n ∈ leaves, n.kind ≠ .concatenation := by
  induction opens with
  | nil => exact List.forall_mem_nil _
  | part kind _ ih => exact List.forall_mem_cons.2 ⟨kind, ih⟩
  | concatenation _ _ _ inner later => exact List.forall_mem_append.2 ⟨inner, later⟩

/-- Every read of a part for its argument gives an answer, and leads to a state of the same kind. -/
structure Answers (c : Compiler) (P : CompileState → Prop) (ids : List FragmentId) : Prop where
  read : ∀ id ∈ ids, ∀ entry ∈ sharedForms, ∀ s, P s →
    ∃ answer t, Compile.run s (c.read id entry.1) = (.ok answer, t) ∧ P t
  push : ∀ s f, P s → P (s.push f)

end Arguments

namespace Compile
variable {α β : Type} {f : α → Compile β} {xs : List α} {P : CompileState → Prop}
    {s t : CompileState}

theorem exists_run_mapM (each : ∀ a ∈ xs, ∀ s, P s → ∃ b t, run s (f a) = (.ok b, t) ∧ P t)
    (here : P s) :
    ∃ bs t, run s (xs.mapM f) = (.ok bs, t) ∧ P t := by
  induction xs generalizing s with
  | nil => exact ⟨[], s, rfl, here⟩
  | cons a xs ih =>
    rw [List.forall_mem_cons] at each
    obtain ⟨b, t, first, there⟩ := each.1 s here
    obtain ⟨bs, u, rest, last⟩ := ih each.2 there
    refine ⟨b :: bs, u, ?_, last⟩
    rw [List.mapM_cons, run_bind_ok first, run_bind_ok rest, run_pure]

theorem of_run_mapM {bs : List β} (ran : run s (xs.mapM f) = (.ok bs, t)) :
    List.Forall₂ (fun a b => ∃ u v, run u (f a) = (.ok b, v)) xs bs := by
  induction xs generalizing s bs with
  | nil =>
    cases ran
    exact .nil
  | cons a xs ih =>
    rw [List.mapM_cons] at ran
    obtain ⟨b, u, first, ran⟩ := of_run_bind ran
    obtain ⟨rest, v, later, ran⟩ := of_run_bind ran
    cases ran
    exact .cons ⟨s, u, first⟩ (ih later)

end Compile

namespace Arguments
open CompileState
variable {c : Compiler} {P : CompileState → Prop} {s : CompileState} {parts : List FragmentId}

theorem Answers.run_allHave (answers : Answers c P parts)
    {entry : Form × (List FragmentId → Recipe)}
    (shared : entry ∈ sharedForms) (here : P s) :
    ∃ all t, Compile.run s (allHave c entry.1 parts) = (.ok all, t) ∧ P t := by
  obtain ⟨read, push⟩ := answers
  induction parts generalizing s with
  | nil => exact ⟨true, s, rfl, here⟩
  | cons part parts ih =>
    rw [List.forall_mem_cons] at read
    obtain ⟨answer, t, run, there⟩ := read.1 entry shared s here
    rw [allHave, Compiler.has, Compile.run_bind, Compile.run_bind_ok run, Compile.run_pure]
    cases answer.isSome with
    | true => exact ih there read.2
    | false => exact ⟨false, t, rfl, there⟩

/-- Parts that answer are combined. -/
theorem Answers.run_combine (answers : Answers c P parts) (here : P s) :
    ∃ id t, Compile.run s (combine c parts) = (.ok id, t) ∧ P t := by
  rw [combine.eq_def]
  split
  · exact ⟨_, s, rfl, here⟩
  · have each : ∀ entry ∈ sharedForms, ∀ s, P s → ∃ field t, Compile.run s (do
        if ← allHave c entry.1 parts then return (entry.1, Recipe.joined entry.1 parts)
        return (entry.1, entry.2 parts)) = (.ok field, t) ∧ P t := by
      intro entry shared s here
      obtain ⟨all, t, run, there⟩ := answers.run_allHave shared here
      rw [Compile.run_bind_ok run]
      cases all with
      | true => exact ⟨_, t, rfl, there⟩
      | false => exact ⟨_, t, rfl, there⟩
    obtain ⟨fields, t, run, there⟩ := Compile.exists_run_mapM each here
    rw [Compile.run_bind_ok run]
    exact ⟨_, _, rfl, answers.push t _ there⟩

/-- Literals answer every read. -/
theorem answers_of_literals (registry : Registry) (fuel : Nat) (ids : List FragmentId) :
    Answers (.ofFuel registry (fuel + 1)) (fun s => ∀ id ∈ ids, ∃ value,
      s.IsLiteral id value) ids := by
  constructor
  · intro id listed entry shared s literals
    have form : entry.1 ∈ [Form.argument, .quotedInnards, .templateInnards] :=
      List.mem_map_of_mem (f := Prod.fst) shared
    obtain ⟨value, literal⟩ := literals id listed
    obtain ⟨answer, t, run, keeps, -⟩ := literal.run_read registry fuel form
    refine ⟨answer, t, run, fun other member => ?_⟩
    obtain ⟨text, known⟩ := literals other member
    exact ⟨text, keeps.keeps known⟩
  · intro s f literals id listed
    obtain ⟨value, fields, text, holds⟩ := literals id listed
    exact ⟨value, fields, text, holds.push f⟩

/-- A combination of literals, if all parts are literals that do not multiply. -/
theorem Fills.isLiteral {t : CompileState} {choice : List Nat} {ids : List FragmentId}
    (fills : Fills s t parts choice ids) (grows : Grows s t)
    (plain : ∀ id ∈ parts, (s.fragments[id]?.bind Fragment.values).isSome ∨ ∃ value,
      s.IsLiteral id value) :
    ∀ id ∈ ids, ∃ value, t.IsLiteral id value := by
  induction fills with
  | nil => exact List.forall_mem_nil _
  | cons first _ ih =>
    rw [List.forall_mem_cons] at plain ⊢
    refine ⟨?_, ih plain.2⟩
    cases first with
    | part present single =>
      rcases plain.1 with multiplies | ⟨value, literal⟩
      · simp [present, single] at multiplies
      · have inside := (Array.getElem?_eq_some_iff.1 present).1
        exact ⟨value, literal.of_eq (grows.getElem?_eq inside)⟩
    | @value _ _ _ value fields _ _ _ _ makes _ made =>
      obtain ⟨others, text, again, -⟩ := literal_makes value
      have same : Fragment.ofFields fields = Fragment.ofFields others :=
        Array.push_inj_right.1 (congrArg (·.2.fragments) ((makes s).symm.trans (again s)))
      rw [same] at made
      exact ⟨value, others, text, holds_ofFields made⟩

/-- One combination for each choice of a value for each part that multiplies, in lexicographic
order. -/
def IsProduct (s t : CompileState) (parts : List FragmentId)
    (combinations : List (List FragmentId)) : Prop :=
  ∃ chosen : List (List Nat), chosen.Pairwise (· < ·) ∧
    (∀ choice, choice ∈ chosen ↔ List.Forall₂ (· < ·) choice (parts.map s.options)) ∧
    List.Forall₂ (Fills s t parts) chosen combinations

theorem exists_fills {t : CompileState} {chosen : List (List Nat)}
    {combinations : List (List FragmentId)}
    {combination : List FragmentId} (filled : List.Forall₂ (Fills s t parts) chosen combinations)
    (member : combination ∈ combinations) : ∃ choice, Fills s t parts choice combination := by
  induction filled with
  | nil => cases member
  | cons first _ ih =>
    rcases List.mem_cons.1 member with rfl | member
    · exact ⟨_, first⟩
    · exact ih member

theorem exists_product (inside : ∀ id ∈ parts, id < s.fragments.size) :
    ∃ combinations t, Compile.run s (expand parts) = (.ok combinations, t) ∧ Grows s t ∧
      IsProduct s t parts combinations ∧ combinations.length = (parts.map s.options).prod ∧
      ∀ combination ∈ combinations, combination.length = parts.length := by
  obtain ⟨combinations, t, run, grows, filled⟩ := run_expand inside
  refine ⟨combinations, t, run, grows,
    ⟨_, pairwise_choices _, fun _ => mem_choices, filled⟩, ?_, ?_⟩
  · rw [← filled.length_eq, length_choices]
  · intro combination member
    obtain ⟨choice, fills⟩ := exists_fills filled member
    exact fills.length_eq

/-- Expanding the parts of an argument gives their product, whose count is that of the choices. The
parts of an argument are its nodes with all concatenations opened, and converting it combines each
combination in turn. It gives one fragment for each combination if all parts can be read. -/
theorem convert_product (c : Compiler) (context : Context) :
    (∀ (s : CompileState) (parts : List FragmentId), (∀ id ∈ parts, id < s.fragments.size) →
      ∃ combinations t, Compile.run s (expand parts) = (.ok combinations, t) ∧ Grows s t ∧
        IsProduct s t parts combinations ∧ combinations.length = (parts.map s.options).prod ∧
        ∀ combination ∈ combinations, combination.length = parts.length) ∧
    ∀ group, Opens group (openAll group) ∧ (∀ n ∈ openAll group, n.kind ≠ .concatenation) ∧
      (∀ s fault t, Compile.run s ((openAll group).mapM fun n => c.compile n context) =
        (.error fault, t) → Compile.run s (convert c context group) = (.error fault, t)) ∧
      ∀ s parts t, Compile.run s ((openAll group).mapM fun n => c.compile n context) =
        (.ok parts, t) → (∀ id ∈ parts, id < t.fragments.size) →
        ∃ combinations u, Grows t u ∧ IsProduct t u parts combinations ∧
          Compile.run s (convert c context group) = Compile.run u (combinations.mapM (combine c)) ∧
          (∀ ids v, Compile.run s (convert c context group) = (.ok ids, v) →
            ids.length = (parts.map t.options).prod ∧
            List.Forall₂ (fun combination id => ∃ w x,
              Compile.run w (combine c combination) = (.ok id, x))
              combinations ids) ∧
          ∀ P, Answers c P combinations.flatten → P u →
            ∃ ids v, Compile.run s (convert c context group) = (.ok ids, v) := by
  refine ⟨fun s parts inside => exists_product inside, fun group => ?_⟩
  refine ⟨opens_openAll group, (opens_openAll group).kind, ?_, ?_⟩
  · intro s fault t failed
    rw [convert, Compile.run_bind, failed]
  · intro s parts t compiled inside
    obtain ⟨combinations, u, run, grows, product, count, -⟩ := exists_product inside
    have converted : Compile.run s (convert c context group) =
        Compile.run u (combinations.mapM (combine c)) := by
      rw [convert, Compile.run_bind_ok compiled, Compile.run_bind_ok run]
    refine ⟨combinations, u, grows, product, converted, ?_, ?_⟩
    · intro ids v ran
      rw [converted] at ran
      have each := Compile.of_run_mapM ran
      exact ⟨each.length_eq ▸ count, each⟩
    · intro P answers here
      rw [converted]
      have each : ∀ combination ∈ combinations, ∀ s, P s →
          ∃ id t, Compile.run s (combine c combination) = (.ok id, t) ∧ P t := by
        intro combination member s here
        refine Answers.run_combine ⟨fun id listed => ?_, answers.push⟩ here
        exact answers.read id (List.mem_flatten.2 ⟨combination, member, listed⟩)
      obtain ⟨ids, v, ran, -⟩ := Compile.exists_run_mapM each here
      exact ⟨ids, v, ran⟩

/-- Two lists with a word between them, the second one in a concatenation of its own. -/
def nested : List Node :=
  [⟨.concatenation, "\x7ba,b\x7dx\x7bc,d\x7d", [⟨.braceExpression, "\x7ba,b\x7d", [], [], 0, 5⟩,
    ⟨.concatenation, "x\x7bc,d\x7d",
      [⟨.word, "x", [], [], 5, 6⟩, ⟨.braceExpression, "\x7bc,d\x7d", [], [], 6, 11⟩],
      [], 5, 11⟩], [], 0, 11⟩]

/-- They make four arguments. -/
theorem convert_product_nested : ∃ ids t,
    Compile.run .empty (convert (.ofFuel .standard 2) .none nested) = (.ok ids, t) ∧
    ids.length = 4 := by
  have compiled : ∃ t, Compile.run .empty ((openAll nested).mapM fun n =>
      (Compiler.ofFuel .standard 2).compile n .none) = (.ok [0, 1, 2], t) ∧ t.fragments.size = 3 ∧
      [0, 1, 2].map t.options = [2, 1, 2] ∧ (t.fragments[0]?.bind Fragment.values).isSome ∧
      (t.fragments[2]?.bind Fragment.values).isSome ∧
      t.Holds 1 ((.argument, .text "x") :: literalFields (Js.templateInnards "x")) :=
    ⟨_, Prod.ext rfl rfl, rfl, rfl, rfl, rfl, holds_ofFields rfl⟩
  obtain ⟨t, compiled, size, options, first, last, holds⟩ := compiled
  obtain ⟨combinations, u, grows, ⟨chosen, -, -, filled⟩, -, count, returns⟩ :=
    ((convert_product (.ofFuel .standard 2) .none).2 nested).2.2.2 _ _ _ compiled (by simp [size])
  have plain : ∀ id ∈ [0, 1, 2], (t.fragments[id]?.bind Fragment.values).isSome ∨
      ∃ value, t.IsLiteral id value := by
    simp only [List.forall_mem_cons]
    exact ⟨.inl first, .inr ⟨"x", _, .cons_argument (.literalFields "x") "x", holds⟩, .inl last,
      List.forall_mem_nil _⟩
  have literals : ∀ id ∈ combinations.flatten, ∃ value, u.IsLiteral id value := by
    intro id listed
    obtain ⟨combination, member, inside⟩ := List.mem_flatten.1 listed
    obtain ⟨choice, fills⟩ := exists_fills filled member
    exact fills.isLiteral grows plain id inside
  obtain ⟨ids, v, ran⟩ := returns _ (answers_of_literals .standard 1 _) literals
  have length := (count ids v ran).1
  rw [options] at length
  exact ⟨ids, v, ran, length⟩

end Arguments

end ShellToDeno
