import ShellToDeno.Proofs.Tree.Gaps

/-!
# Trees tile their source

Every byte of a script lies in exactly one leaf of its tree. The children of a node follow each
other without a hole from the start of the node to its end, whatever offsets the reader reported:
offsets that do not fit are clamped, and siblings that overlap turn their parent into a leaf.

Of the reader only one thing is used: a here-document body, with its closing line, is not empty. A
body of no bytes would be cut off a gap again and again.
-/
namespace ShellToDeno

namespace Node

/-- A tree with a property at every node. -/
inductive Everywhere (P : Node → Prop) : Node → Prop
  | mk {n : Node} (here : P n) (inside : ∀ c ∈ n.children, Everywhere P c) : Everywhere P n

namespace Everywhere

variable {P : Node → Prop} {n : Node}

theorem here (holds : n.Everywhere P) : P n := by
  cases holds with
  | mk here _ => exact here

theorem inside (holds : n.Everywhere P) : ∀ c ∈ n.children, c.Everywhere P := by
  cases holds with
  | mk _ inside => exact inside

theorem of_mem_walk (holds : n.Everywhere P) :
    ∀ {depth : Nat} {entry : Nat × Node}, entry ∈ n.walk depth → entry.2.Everywhere P := by
  induction holds with
  | @mk n here inside ih =>
    intro depth entry member
    obtain ⟨kind, shown, children, indent, start, stop⟩ := n
    rw [walk, List.mem_cons] at member
    rcases member with rfl | member
    · exact .mk here inside
    · clear here inside
      induction children with
      | nil => simp [walkAll] at member
      | cons c rest ihRest =>
        rw [walkAll, List.mem_append] at member
        rcases member with member | member
        · exact ih c List.mem_cons_self member
        · exact ihRest (fun c hc => ih c (List.mem_cons_of_mem _ hc)) member

end Everywhere

/-- A node that shows what lies between its offsets. -/
structure Shows (source : Text) (n : Node) : Prop where
  text : Text.slice? source n.start n.stop = some n.text

theorem Shows.bounds {source : Text} {n : Node} (shows : n.Shows source) :
    0 ≤ n.start ∧ n.start ≤ n.stop ∧ n.stop ≤ source.length := by
  have shown := shows.text
  rw [Text.slice?] at shown
  split at shown
  · assumption
  · cases shown

/-- A node that is covered by its children, if it has any. -/
structure IsCovered (source : Text) (n : Node) : Prop extends n.Shows source where
  covered : n.children = [] ∨ Abut n.start n.stop n.children

abbrev Tiled (source : Text) (n : Node) : Prop := n.Everywhere (IsCovered source)

theorem abut_append {a b c : Int} {front back : List Node} (hf : Abut a b front)
    (hb : Abut b c back) : Abut a c (front ++ back) := by
  induction front generalizing a with
  | nil => rw [Abut] at hf; subst hf; exact hb
  | cons n rest ih => exact ⟨hf.1, ih hf.2⟩

end Node

namespace Text

theorem slice?_eq (t : Text) {start stop : Nat} (ordered : start ≤ stop) (fits : stop ≤ t.length) :
    slice? t start stop = some (t.slice start stop) := by
  have hs : (0 : Int) ≤ start ∧ (start : Int) ≤ stop ∧ (stop : Int) ≤ t.length := by omega
  have hd : ((stop : Int) - start).toNat = stop - start := by omega
  simp only [slice?, if_pos hs, slice, Int.toNat_natCast, hd]

/-- Two stretches that meet, one after the other. -/
theorem slice?_append {t front back : Text} {a b c : Int} (hf : slice? t a b = some front)
    (hb : slice? t b c = some back) : slice? t a c = some (front ++ back) := by
  simp only [slice?] at hf hb ⊢
  split at hf
  · split at hb
    · next h₁ h₂ =>
      obtain rfl := Option.some.inj hf
      obtain rfl := Option.some.inj hb
      rw [if_pos ⟨h₁.1, by omega, h₂.2.2⟩]
      have cut : (c - a).toNat = (b - a).toNat + (c - b).toNat := by omega
      have skip : b.toNat = a.toNat + (b - a).toNat := by omega
      rw [cut, List.take_add, List.drop_drop, skip]
    · cases hb
  · cases hf

end Text

namespace Node

variable {source : Text}

/-- The texts of nodes that abut, joined. -/
theorem slice?_of_abut {a b : Int} {nodes : List Node} (first : 0 ≤ a) (last : b ≤ source.length)
    (abut : Abut a b nodes) (tiled : ∀ c ∈ nodes, Tiled source c) :
    Text.slice? source a b = some (nodes.flatMap Node.text) := by
  induction nodes generalizing a with
  | nil =>
    rw [Abut] at abut
    subst abut
    simp [Text.slice?, first, last]
  | cons n rest ih =>
    obtain ⟨rfl, abut⟩ := abut
    have hn := tiled n List.mem_cons_self
    have hr := ih (by have := hn.here.bounds; omega) abut fun c hc =>
      tiled c (List.mem_cons_of_mem n hc)
    simpa only [List.flatMap_cons] using Text.slice?_append hn.here.text hr

theorem self_mem_walk (n : Node) (depth : Nat) : (depth, n) ∈ n.walk depth := by
  obtain ⟨kind, text, children, indent, start, stop⟩ := n
  rw [walk]
  exact List.mem_cons_self

theorem leavesOf_eq_flatMap (nodes : List Node) : leavesOf nodes = nodes.flatMap leaves := by
  induction nodes with
  | nil => rfl
  | cons n rest ih => rw [leavesOf, ih, List.flatMap_cons]

theorem leaves_eq {n : Node} (inner : n.children ≠ []) :
    n.leaves = n.children.flatMap leaves := by
  obtain ⟨kind, text, children, indent, start, stop⟩ := n
  cases children with
  | nil => exact absurd rfl inner
  | cons c rest => rw [leaves, leavesOf_eq_flatMap, List.flatMap_cons]

/-- The leaves of a tiled node spell its text. -/
theorem flatMap_leaves_of_tiled {n : Node} (h : n.Tiled source) :
    n.leaves.flatMap Node.text = n.text := by
  induction h with
  | @mk n here inside ih =>
    by_cases inner : n.children = []
    · obtain ⟨kind, shown, children, indent, start, stop⟩ := n
      obtain rfl : children = [] := inner
      simp [leaves]
    · have abut := here.covered.resolve_left inner
      have joined := slice?_of_abut here.bounds.1 here.bounds.2.2 abut inside
      have same : n.text = n.children.flatMap Node.text :=
        Option.some.inj (here.text.symm.trans joined)
      rw [leaves_eq inner, List.flatMap_assoc, same]
      exact congrArg List.flatten (List.map_congr_left fun c hc => ih c hc)

end Node

namespace Source

open Node

variable {s : Source}

/-- A node over a stretch of the source with children that tile it. -/
theorem tiled_node {kind : Kind} {start stop : Nat} {children : List Node} (ordered : start ≤ stop)
    (fits : stop ≤ s.size) (covered : children = [] ∨ Abut start stop children)
    (inside : ∀ c ∈ children, Tiled s.text c) : Tiled s.text (s.node kind start stop children) :=
  .mk ⟨⟨Text.slice?_eq _ ordered fits⟩, covered⟩ inside

theorem IsLeaf.tiled {n : Node} (leaf : s.IsLeaf n) : Tiled s.text n := by
  cases leaf with
  | mk ordered fits => exact tiled_node ordered fits (.inl rfl) (List.forall_mem_nil _)

theorem tiled_builds (advance : s.BodiesAdvance) : s.Builds (Tiled s.text) := by
  have gap {start stop : Nat} (ordered : start ≤ stop) (fits : stop ≤ s.size) :
      Abut start stop (s.gap start stop) := by
    obtain ⟨reached, _, abut, whole⟩ := gap_abut ordered fits
    rwa [whole advance] at abut
  refine .of_leaf IsLeaf.tiled fun _ ordered fits known filled inside => ?_
  refine tiled_node ordered fits (.inr ?_) inside
  have bounds (n : Node) (member : n ∈ _) : 0 ≤ n.start ∧ n.start ≤ n.stop :=
    ⟨(known n member).here.bounds.1, (known n member).here.bounds.2.1⟩
  exact fill?_spans gap (fun _ front back => abut_append front ⟨rfl, back⟩) fits bounds
    ordered filled

end Source

namespace Node

open Shell

theorem ofScript_tiled {source : Text} {script : Script}
    (advance : (Source.ofScript source script).BodiesAdvance) :
    Tiled source (.ofScript source script) :=
  (Source.tiled_builds advance).build _ _ rfl
    (Source.statements_all (Source.tiled_builds advance) _ _)

theorem build_kind (s : Source) (kind : Kind) (start stop : Nat) (inside : List Node) :
    (s.build kind start stop inside).kind = kind := by
  rw [Source.build]
  dsimp only
  split
  · rfl
  · rfl

theorem build_whole (s : Source) (kind : Kind) (inside : List Node) :
    (s.build kind 0 s.size inside).start = 0 ∧ (s.build kind 0 s.size inside).stop = s.size := by
  rw [Source.build, Source.clamp_of_le (Nat.zero_le _) (Nat.le_refl _)]
  dsimp only
  split
  · exact ⟨rfl, rfl⟩
  · rw [Source.leaf_of_le (Nat.zero_le _) (Nat.le_refl _)]
    exact ⟨rfl, rfl⟩

/-- The tree of an accepted script tiles it: the root is the program and shows the whole script, a
node shows what lies between its offsets, the children of a node lie one after the other from its
start to its end, and so its leaves spell its text. -/
theorem parse_tiles {source : Text} {root : Node} (accepted : Node.parse source = .ok root)
    (advance : ∀ script, Script.read source = .ok script →
      (Source.ofScript source script).BodiesAdvance) :
    root.kind = .program ∧ root.text = source ∧
      ∀ entry ∈ root.walk 0,
        Text.slice? source entry.2.start entry.2.stop = some entry.2.text ∧
        (entry.2.children ≠ [] → Abut entry.2.start entry.2.stop entry.2.children) ∧
        entry.2.leaves.flatMap Node.text = entry.2.text := by
  rw [Node.parse] at accepted
  split at accepted
  · next script read =>
    cases accepted
    have tiled := ofScript_tiled (advance script read)
    refine ⟨build_kind _ _ _ _ _, ?_, ?_⟩
    · have whole := tiled.here.text
      obtain ⟨first, last⟩ := build_whole (Source.ofScript source script) .program
        ((Source.ofScript source script).statements script.bodies script.statements)
      rw [show (Node.ofScript source script).start = 0 from first,
        show (Node.ofScript source script).stop = source.length from last] at whole
      simpa [Text.slice?] using whole.symm
    · intro entry member
      have node := tiled.of_mem_walk member
      exact ⟨node.here.text, fun inner => node.here.covered.resolve_left inner,
        flatMap_leaves_of_tiled node⟩
  · cases accepted
  · cases accepted

set_option maxRecDepth 4000 in
/-- A here-document, whose body lies outside the command that asks for it. -/
theorem parse_tiles_document : ∃ script root,
    Script.read "a<<E\nb\nE" = .ok script ∧ script.bodies = [⟨1, ⟨5, 8⟩⟩] ∧
      Node.parse "a<<E\nb\nE" = .ok root ∧
      root.leaves.flatMap Node.text = ("a<<E\nb\nE" : Text) := by
  have bodies : (Script.read "a<<E\nb\nE").toOption.map Script.bodies = some [⟨1, ⟨5, 8⟩⟩] := by
    decide +kernel
  cases read : Script.read "a<<E\nb\nE" with
  | error refusal => rw [read] at bodies; cases bodies
  | ok script =>
    rw [read] at bodies
    have known : script.bodies = [⟨1, ⟨5, 8⟩⟩] := Option.some.inj bodies
    have accepted : Node.parse "a<<E\nb\nE" = .ok (.ofScript "a<<E\nb\nE" script) := by
      rw [Node.parse, read]
    obtain ⟨-, text, nodes⟩ := parse_tiles accepted fun other same => by
      obtain rfl := Except.ok.inj (read.symm.trans same)
      intro body member
      rw [Source.ofScript, known] at member
      obtain rfl := List.mem_singleton.mp member
      decide
    exact ⟨script, _, rfl, known, accepted, (nodes _ (self_mem_walk _ 0)).2.2.trans text⟩

end Node

end ShellToDeno
