import ShellToDeno.Proofs.Tiling

/-!
# Trees are laid out over their source

Whatever the reader reports, the nodes of a tree show stretches of the source, and the children of a
node lie one after the other inside it; a token spells its own kind. Unlike a tiling this leaves
room for holes, so it holds of every script.
-/
namespace ShellToDeno

namespace Node

/-- Nodes that lie one after the other between two offsets. -/
def Ordered : Int → Int → List Node → Prop
  | start, stop, [] => start ≤ stop
  | start, stop, n :: rest => start ≤ n.start ∧ n.start ≤ n.stop ∧ Ordered n.stop stop rest

/-- A node with its children in order, that spells its kind if it is a token. -/
structure IsLaid (source : Text) (n : Node) : Prop extends n.Shows source where
  ordered : Ordered n.start n.stop n.children
  spelled : ∀ spelling, n.kind = .token spelling → n.text = spelling
  blank : ∀ b ∈ n.indent, b = ' ' ∨ b = '\t'

abbrev Laid (source : Text) (n : Node) : Prop := n.Everywhere (IsLaid source)

theorem ordered_append {a b c : Int} {front back : List Node} (first : Ordered a b front)
    (second : Ordered b c back) : Ordered a c (front ++ back) := by
  induction front generalizing a with
  | nil =>
    cases back with
    | nil => exact Int.le_trans first second
    | cons n rest => exact ⟨Int.le_trans first second.1, second.2⟩
  | cons n rest ih => exact ⟨first.1, first.2.1, ih first.2.2⟩

theorem Abut.ordered {start reached stop : Int} {nodes : List Node}
    (abut : Abut start reached nodes)
    (before : reached ≤ stop) (bounds : ∀ n ∈ nodes, n.start ≤ n.stop) :
      Ordered start stop nodes := by
  induction nodes generalizing start with
  | nil =>
    rw [Abut] at abut
    subst abut
    exact before
  | cons n rest ih =>
    rw [List.forall_mem_cons] at bounds
    obtain ⟨rfl, abut⟩ := abut
    exact ⟨Int.le_refl _, bounds.1, ih abut bounds.2⟩

end Node

namespace Source

open Node

variable {s : Source}

theorem indentAt_blank (s : Source) (offset : Nat) :
    ∀ b ∈ s.indentAt offset, b = ' ' ∨ b = '\t' := by
  intro b member
  have blank := List.mem_takeWhile_imp member
  simpa using blank

theorem laid_node {kind : Kind} {start stop : Nat} {children : List Node} (fits : stop ≤ s.size)
    (bounded : start ≤ stop) (ordered : Ordered start stop children)
    (spelled : ∀ spelling, kind = .token spelling → s.text.slice start stop = spelling)
    (inside : ∀ c ∈ children, Laid s.text c) : Laid s.text (s.node kind start stop children) :=
  .mk ⟨⟨Text.slice?_eq _ bounded fits⟩, ordered, spelled, s.indentAt_blank start⟩ inside

theorem IsLeaf.laid {n : Node} (leaf : s.IsLeaf n) : Laid s.text n := by
  cases leaf with
  | mk bounded fits spelled =>
    exact laid_node fits bounded (Int.ofNat_le.2 bounded) spelled (List.forall_mem_nil _)

theorem gap_ordered {start stop : Nat} (bounded : start ≤ stop) (fits : stop ≤ s.size) :
    Ordered start stop (s.gap start stop) := by
  obtain ⟨reached, before, abut, _⟩ := gap_abut bounded fits
  refine abut.ordered (Int.ofNat_le.2 before) fun n member => ?_
  exact (s.gap_leaves start stop n member).laid.here.bounds.2.1

theorem laid_builds (s : Source) : s.Builds (Laid s.text) := by
  refine .of_leaf IsLeaf.laid fun grammar bounded fits known filled inside => ?_
  have bounds (n : Node) (member : n ∈ _) : 0 ≤ n.start ∧ n.start ≤ n.stop :=
    ⟨(known n member).here.bounds.1, (known n member).here.bounds.2.1⟩
  have ordered := fill?_spans (R := Ordered) gap_ordered
    (fun within front back => ordered_append front ⟨Int.le_refl _, within, back⟩) fits bounds
    bounded filled
  refine laid_node fits bounded ordered ?_ inside
  rintro spelling rfl
  cases grammar

end Source

/-- The tree of every script that is read is laid out over it. -/
theorem Node.laid_of_parse {source : Text} {root : Node} (accepted : Node.parse source = .ok root) :
    root.Laid source :=
  Node.of_parse accepted fun script => (Source.ofScript source script).laid_builds

end ShellToDeno
