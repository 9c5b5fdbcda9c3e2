import ShellToDeno.Proofs.Compile.Compiled
import ShellToDeno.Proofs.Integers
import ShellToDeno.Proofs.Settling.Levels

/-!
# Faults are contained

Compilers with enough fuel agree on any tree, so that what they do is what a compiler without limits
does (`Compiler.settles`). It always ends: a run of nodes gives for each of them, in order, a form
of its own fragment or the marker of its own text, and the state afterwards has the depth, the
features and the functions from before, however many faults there were on the way.

The one walk that can fail to end by itself is that of a brace range. It does end where the bounds
and the step stay below 2^62.
-/
namespace ShellToDeno

open CompileState

/-- Two compilers agree on all that lies up to a level. -/
structure Settles (level : Nat) (c d : Compiler) : Prop where
  registry : c.registry = d.registry
  reads : ReadsAlike Ledger.levels level c d
  compile : ∀ {depth : Nat}, 6 * depth ≤ level →
    ∀ {s : CompileState} {n : Node} (context : Context),
    n.Bounded depth → Agree Ledger.levels s (c.compile n context) (d.compile n context)
      fun id t => t.Low (6 * depth) id

theorem ReadsAlike.mono {level higher : Nat} {c d : Compiler} (le : level ≤ higher)
    (reads : ReadsAlike Ledger.levels higher c d) : ReadsAlike Ledger.levels level c d :=
  ⟨fun form low => reads.readAny form (Low.mono le low)⟩

theorem Settles.serves {level depth : Nat} {c d : Compiler} (settles : Settles level c d)
    (room : 6 * depth + 5 ≤ level) : Serves Ledger.levels depth c d :=
  ⟨settles.registry, fun strict => strict.elim,
    fun context bounded => (settles.compile (by omega) context bounded).imp
    fun _ _ _ low => ⟨low, trivial, trivial⟩, settles.reads.mono room⟩

namespace Compiler
variable {registry : Registry} {level limit : Nat}

/-- With some more fuel forms are read alike one level higher. The induction is on the rank of the
form: a derivation stays in the fragment and goes down in rank, a recipe goes down in level. -/
theorem reads_succ
    (settled : ∀ {j k}, limit ≤ j → limit ≤ k →
      Settles level (ofFuel registry j) (ofFuel registry k))
    {j k : Nat} (enough : limit + 14 ≤ j) (enoughToo : limit + 14 ≤ k) :
    ReadsAlike Ledger.levels (level + 1) (ofFuel registry j) (ofFuel registry k) := by
  have ranked (rank : Nat) : ∀ {j k : Nat}, limit + rank ≤ j → limit + rank ≤ k →
      ∀ {s : CompileState} {id : FragmentId} {f : Fragment} {form : Form},
        s.fragments[id]? = some f → s.Low (level + 1) id →
        form.rank (fun g => f.supplies (some g)) < rank →
        Agrees Ledger.levels s ((ofFuel registry j).readAny id (some form))
          ((ofFuel registry k).readAny id (some form)) := by
    induction rank with
    | zero =>
      intro j k _ _ s id f form _ _ less
      exact absurd less (Nat.not_lt_zero _)
    | succ rank ih =>
      intro j k enough enoughToo s id f form present low less
      obtain ⟨j, rfl⟩ : ∃ i, j = i + 1 := ⟨j - 1, by omega⟩
      obtain ⟨k, rfl⟩ : ∃ i, k = i + 1 := ⟨k - 1, by omega⟩
      have below : Settles level (ofFuel registry j) (ofFuel registry k) :=
        settled (by omega) (by omega)
      have marking := Leads.setSlot s id form .cooking
      refine Fragment.read_agrees present ?_
      rw [Fragment.making, Fragment.making]
      cases given : f.recipe? (some form) with
      | some recipe =>
        obtain ⟨g, found, rests⟩ := low
        obtain rfl : f = g := Option.some.inj (present.symm.trans found)
        obtain ⟨within, fits⟩ := rests form recipe given
        exact (Fragment.cook_agrees below.reads below.serves
          ⟨⟨within.imp fun _ => Low.lead marking, fits⟩, fun strict => strict.elim⟩).agrees
      | none =>
        have derived : f.supplies (some form) = false := by rw [Fragment.supplies, given]; rfl
        obtain ⟨g, marked, same⟩ := marking.fragments present
        have supplied : (fun h => g.supplies (some h)) = fun h => f.supplies (some h) := by
          funext h
          rw [Fragment.supplies, Fragment.supplies, Fragment.recipe?, Fragment.recipe?, same]
        refine .of_run (Fragment.run_derive marked form) (Fragment.run_derive marked form) ?_
        rw [supplied]
        refine Query.run_agrees (Form.derivation_asks _ derived) fun {t j form} step asked => ?_
        obtain ⟨rfl, asked, rfl, lower⟩ := asked
        obtain ⟨h, kept, again⟩ := (marking.trans step).fragments present
        have alike : (fun g => h.supplies (some g)) = fun g => f.supplies (some g) := by
          funext g
          rw [Fragment.supplies, Fragment.supplies, Fragment.recipe?, Fragment.recipe?, again]
        exact ih (by omega) (by omega) kept (low.lead (marking.trans step)) (by rw [alike]; omega)
  refine ⟨fun {s id} form low => ?_⟩
  cases form with
  | none =>
    obtain ⟨j, rfl⟩ : ∃ i, j = i + 1 := ⟨j - 1, by omega⟩
    obtain ⟨k, rfl⟩ : ∃ i, k = i + 1 := ⟨k - 1, by omega⟩
    exact .fault _
  | some form =>
    have highest : form.depth ≤ 12 := by cases form <;> decide
    obtain ⟨f, present, rests⟩ := low
    refine (ranked 14 enough enoughToo present ⟨f, present, rests⟩ ?_).imp fun _ _ _ _ =>
      ⟨trivial, fun _ _ strict => strict.elim⟩
    rw [Form.rank]
    split <;> omega

/-- Compilers agree up to a level as soon as they have fuel for it. -/
theorem settles (registry : Registry) (level : Nat) : ∀ {j k : Nat}, 14 * level ≤ j →
    14 * level ≤ k → Settles level (ofFuel registry j) (ofFuel registry k) := by
  have known (fuel : Nat) : (ofFuel registry fuel).registry = registry := by cases fuel <;> rfl
  induction level with
  | zero =>
    intro j k _ _
    refine ⟨(known j).trans (known k).symm, ⟨fun _ low => low.elim⟩, fun {depth} room => ?_⟩
    obtain rfl : depth = 0 := by omega
    exact fun _ bounded => bounded.elim
  | succ level ih =>
    intro j k enough enoughToo
    refine ⟨(known j).trans (known k).symm, reads_succ ih (by omega) (by omega), ?_⟩
    intro depth room s n context bounded
    cases depth with
    | zero => exact bounded.elim
    | succ depth =>
      obtain ⟨j, rfl⟩ : ∃ i, j = i + 1 := ⟨j - 1, by omega⟩
      obtain ⟨k, rfl⟩ : ∃ i, k = i + 1 := ⟨k - 1, by omega⟩
      have below : Settles level (ofFuel registry j) (ofFuel registry k) :=
        ih (by omega) (by omega)
      exact (Compile.settle_node (fun e le => below.serves (by omega))
        (fun strict => strict.elim) bounded.1
        (fun kind statement => bounded.2 statement kind) context).imp fun _ _ _ returned =>
          returned.low

end Compiler

namespace Compile

/-- What a node adds to a run of statements: a form of its own fragment, or the marker of its own
text. The value stands in only where no statement is needed and there is none. -/
def Adds (c : Compiler) (context : Context) (s : CompileState) (n : Node) (text : Text)
    (t : CompileState) : Prop :=
  ∃ id u, run s (c.compile n context) = (.ok id, u) ∧
    run u (Fragment.render c id n context) = (.ok text, t) ∧
    (run u (c.read id .statement) = (.ok (some text), t) ∨
      context.needsStatement = false ∧ (∃ v, run u (c.read id .statement) = (.ok none, v) ∧
        run v (c.read id .value) = (.ok (some text), t)) ∨
      text = Js.marker n.text)

/-- What some nodes add, one after the other. -/
inductive AddsAll (c : Compiler) (context : Context) :
    CompileState → List Node → List Text → CompileState → Prop where
  | nil (s : CompileState) : AddsAll c context s [] [] s
  | cons {s t u : CompileState} {n : Node} {text : Text} {nodes : List Node} {texts : List Text}
    (first : Adds c context s n text t) (rest : AddsAll c context t nodes texts u) :
    AddsAll c context s (n :: nodes) (text :: texts) u

variable {c : Compiler} {s : CompileState}

/-- Reading for output ends as the read does, or with the marker. -/
theorem run_readOr (c : Compiler) (s : CompileState) (id : FragmentId) (n : Node) (form : Form) :
    ∃ found t, run s (Fragment.readOr c id n form) = (.ok found, t) ∧
      (run s (c.read id form) = (.ok found, t) ∨ found = some (Js.marker n.text)) := by
  rw [Fragment.readOr, run_tryCatch]
  generalize run s (c.read id form) = outcome
  obtain ⟨outcome, t⟩ := outcome
  cases outcome with
  | ok found => exact ⟨found, t, rfl, .inl rfl⟩
  | error fault => exact ⟨_, _, rfl, .inr rfl⟩

/-- Rendering ends with a form of the fragment or with the marker. -/
theorem run_render (c : Compiler) (s : CompileState) (id : FragmentId) (n : Node)
    (context : Context) : ∃ text t, run s (Fragment.render c id n context) = (.ok text, t) ∧
      (run s (c.read id .statement) = (.ok (some text), t) ∨
        context.needsStatement = false ∧ (∃ u, run s (c.read id .statement) = (.ok none, u) ∧
          run u (c.read id .value) = (.ok (some text), t)) ∨
        text = Js.marker n.text) := by
  obtain ⟨found, t, ran, own⟩ := run_readOr c s id n .statement
  rw [Fragment.render, run_bind_ok ran]
  cases found with
  | some text =>
    refine ⟨text, t, rfl, ?_⟩
    rcases own with own | marker
    · exact .inl own
    · exact .inr (.inr (Option.some.inj marker))
  | none =>
    have read : run s (c.read id .statement) = (.ok none, t) := own.resolve_right nofun
    cases needs : context.needsStatement with
    | true => exact ⟨_, _, rfl, .inr (.inr rfl)⟩
    | false =>
      obtain ⟨found, u, ran, own⟩ := run_readOr c t id n .value
      dsimp only
      rw [Bool.not_false, if_pos rfl, run_bind_ok ran]
      cases found with
      | none => exact ⟨_, _, rfl, .inr (.inr rfl)⟩
      | some text =>
        refine ⟨text, u, rfl, ?_⟩
        rcases own with own | marker
        · exact .inr (.inl ⟨rfl, t, read, own⟩)
        · exact .inr (.inr (Option.some.inj marker))

/-- One step of a run of statements: the node is compiled, and what it becomes is rendered. -/
theorem adds_of_run {context : Context} {n : Node} {text : Text} {t : CompileState}
    (ran : run s (do Fragment.render c (← c.compile n context) n context) = (.ok text, t)) :
    Adds c context s n text t := by
  obtain ⟨id, u, compiled, rendered⟩ := of_run_bind ran
  obtain ⟨other, v, again, own⟩ := run_render c u id n context
  obtain ⟨rfl, rfl⟩ : text = other ∧ t = v := by simpa using rendered.symm.trans again
  exact ⟨id, u, compiled, rendered, own⟩

theorem addsAll_of_run {context : Context} {nodes : List Node} {texts : List Text}
    {t : CompileState}
    (ran : run s (nodes.mapM fun n => do Fragment.render c (← c.compile n context) n context) =
      (.ok texts, t)) : AddsAll c context s nodes texts t := by
  induction nodes generalizing s texts with
  | nil =>
    cases ran
    exact .nil _
  | cons n nodes ih =>
    rw [List.mapM_cons] at ran
    obtain ⟨text, u, first, ran⟩ := of_run_bind ran
    obtain ⟨rest, v, others, ended⟩ := of_run_bind ran
    cases ended
    exact .cons (adds_of_run first) (ih others)

theorem exists_run_nodes (registry : Registry) {fuel : Nat} (positive : 0 < fuel)
    (s : CompileState) (context : Context) (nodes : List Node) :
    ∃ texts t, run s (nodes.mapM fun n => do
      Fragment.render (.ofFuel registry fuel)
        (← (Compiler.ofFuel registry fuel).compile n context) n
        context) = (.ok texts, t) := by
  induction nodes generalizing s with
  | nil => exact ⟨[], s, rfl⟩
  | cons n nodes ih =>
    obtain ⟨id, t, compiled, _⟩ := Compiler.exists_compile registry positive s n context
    obtain ⟨text, u, rendered, _⟩ := run_render (.ofFuel registry fuel) t id n context
    obtain ⟨texts, v, others⟩ := ih u
    refine ⟨text :: texts, v, ?_⟩
    rw [List.mapM_cons, bind_assoc, run_bind_ok compiled, run_bind_ok rendered, run_bind_ok others]
    rfl

end Compile

namespace Braces.Range

/-- Bounds and step, where they can be read, stay below 2^62. -/
def IsModest (r : Range) : Prop :=
  ∀ written ∈ r.first :: r.last :: r.step.toList, ∀ i, Integer.read? written = some i →
    i.natAbs < 2 ^ 62

/-- The values of a range when its walk may take so many steps. -/
def valuesWithin? (limit : Nat) (r : Range) : Option (List Text) := do
  let first ← Integer.read? r.first
  let last ← Integer.read? r.last
  let size ← distance? r.step
  let step := if last < first then Integer.wrap (-size) else size
  return (walk step last limit first []).map (pad r.width)

/-- A walk on which some gap closes does not need more steps than the gap is wide. -/
theorem walk_add {step last : Int} (P : Int → Prop) (gap : Int → Int)
    (next : ∀ i, P i → inside step last i = true →
      P (Integer.wrap (i + step)) ∧ gap (Integer.wrap (i + step)) < gap i)
    (wide : ∀ i, inside step last i = true → 0 ≤ gap i) {fuel : Nat} (more : Nat) {i : Int}
    (here : P i) (enough : gap i < fuel) (met : List Int) :
    walk step last (fuel + more) i met = walk step last fuel i met := by
  induction fuel generalizing i met with
  | zero =>
    have outside : inside step last i = false := by
      by_contra inside
      have := wide i (Bool.eq_true_of_not_eq_false inside)
      omega
    cases more with
    | zero => rfl
    | succ more => simp [walk, outside]
  | succ fuel ih =>
    rw [Nat.succ_add, walk, walk]
    split
    · next stays =>
      obtain ⟨there, closer⟩ := next i here stays
      exact ih there (by omega) _
    · rfl

/-- A walk up or down between modest bounds ends before the limit. -/
theorem walk_of_le {first last size : Int} (low : first.natAbs < 2 ^ 62)
    (high : last.natAbs < 2 ^ 62)
    (positive : 0 < size) (small : size < 2 ^ 62) {limit : Nat} (le : walkLimit ≤ limit) :
    walk (if last < first then Integer.wrap (-size) else size) last limit first [] =
      walk (if last < first then Integer.wrap (-size) else size) last walkLimit first [] := by
  obtain ⟨more, rfl⟩ := Nat.exists_eq_add_of_le le
  split
  · next down =>
    rw [Integer.wrap_eq (n := -size) (by omega) (by omega)]
    refine walk_add (fun i => i.natAbs < 2 ^ 63) (fun i => i - last) ?_ ?_ more
      (by omega) ?_ []
    · intro i _ stays
      have bounds : last ≤ i := by simp [inside] at stays; omega
      rw [Integer.wrap_eq (by omega) (by omega)]
      omega
    · intro i stays
      simp [inside] at stays
      omega
    · simp only [walkLimit, Integer.count]
      omega
  · refine walk_add (fun i => i.natAbs < 2 ^ 63) (fun i => last - i) ?_ ?_ more
      (by omega) ?_ []
    · intro i _ stays
      have bounds : i ≤ last := by simp [inside] at stays; omega
      rw [Integer.wrap_eq (by omega) (by omega)]
      omega
    · intro i stays
      simp [inside] at stays
      omega
    · simp only [walkLimit, Integer.count]
      omega

theorem distance_small {written : Option Text} {size : Int} (found : distance? written = some size)
    (modest : ∀ text ∈ written, ∀ i, Integer.read? text = some i → i.natAbs < 2 ^ 62) :
    0 < size ∧ size < 2 ^ 62 := by
  cases written with
  | none =>
    cases found
    decide
  | some text =>
    obtain ⟨i, read, rfl⟩ := Option.map_eq_some_iff.1 found
    have small := modest text rfl i read
    dsimp only
    rw [Integer.wrap_eq (n := -i) (by omega) (by omega)]
    split <;> split <;> omega

/-- The walk of a modest range ends by itself: a higher limit changes nothing. -/
theorem IsModest.values {r : Range} (modest : r.IsModest) {limit : Nat} (le : walkLimit ≤ limit) :
    r.valuesWithin? limit = r.values? := by
  unfold valuesWithin? values?
  refine Option.bind_congr fun first readFirst => ?_
  refine Option.bind_congr fun last readLast => ?_
  refine Option.bind_congr fun size found => ?_
  obtain ⟨positive, small⟩ := distance_small found fun text listed =>
    modest text (by simp [Option.mem_def.1 listed])
  have low := modest r.first (by simp) first readFirst
  have high := modest r.last (by simp) last readLast
  dsimp only
  rw [walk_of_le low high positive small le]

end Braces.Range

namespace Compile

/-- Compiling and rendering a run of nodes ends, in whatever state it begins, and with the same
outcome for all compilers with enough fuel. Each node adds a form of its own fragment or its own
marker, in order. The depth is what it was, and no feature and no function is forgotten. The ranges
on the way end their walks by themselves if they are modest. -/
theorem statements_contained (registry : Registry) (context : Context) (nodes : List Node) :
    (∃ limit, ∀ s : CompileState, ∃ texts t,
      (∀ fuel ≥ limit,
        run s (statements (.ofFuel registry fuel) context nodes) = (.ok texts.flatten, t) ∧
        AddsAll (.ofFuel registry fuel) context s nodes texts t) ∧
      t.depth = s.depth ∧ (∀ feature, s.features.has feature → t.features.has feature) ∧
      s.functions ⊆ t.functions) ∧
    ∀ r : Braces.Range, r.IsModest → ∀ limit ≥ Braces.Range.walkLimit,
      r.valuesWithin? limit = r.values? := by
  refine ⟨?_, fun r modest limit le => modest.values le⟩
  obtain ⟨depth, bounded⟩ := Node.exists_bounded_all fun n (_ : n ∈ nodes) => n.exists_bounded
  refine ⟨14 * (6 * depth + 5), fun s => ?_⟩
  have positive : 0 < 14 * (6 * depth + 5) := by omega
  obtain ⟨texts, t, ran⟩ := exists_run_nodes registry positive s context nodes
  have agrees (fuel : Nat) (enough : fuel ≥ 14 * (6 * depth + 5)) :=
    rendered_agrees (s := s) ((Compiler.settles registry (6 * depth + 5) (Nat.le_refl _)
      enough).serves
      (Nat.le_refl _)) context bounded
  refine ⟨texts, t, fun fuel enough => ?_, ?_⟩
  · have same := (agrees fuel enough trivial).1.symm.trans ran
    exact ⟨run_bind_ok same _, addsAll_of_run same⟩
  · have leads := (agrees _ (Nat.le_refl _) trivial).2.2.1
    rw [ran] at leads
    exact ⟨leads.depth, fun _ => leads.features, leads.functions⟩

/-- The name of the expansion lies outside of its text; the comment behind it comes through. -/
example : (run .empty (statements (.ofFuel .standard 4) .program
    [⟨.expansion, "$\x7ba\x7d", [⟨.variableName, "a", [], [], 40, 41⟩], [], 0, 4⟩,
      ⟨.whitespace, "\n", [], [], 4, 5⟩, ⟨.comment, "# b", [], [], 5, 8⟩])).1 =
    .ok (Js.marker "$\x7ba\x7d" ++ "\n// b") := by decide +kernel

end Compile

end ShellToDeno
