import Mathlib.Algebra.Order.BigOperators.Group.List
import Mathlib.Algebra.Order.Ring.Nat
import ShellToDeno.Proofs.Tree.Laid
import ShellToDeno.Proofs.Compile.Pipelines
import ShellToDeno.Proofs.Tree.Queries

/-!
# How deep the compiler goes

The compiler goes from a node to its children, and from a list with a jump on its right to the if
statement that the jump is rewritten to (`guard?`). That statement comes from a script of its own,
so it is no smaller than the list. But the operator of the list is gone from the script: it has
fewer pairs of `&` or `|` (`junctions_guard`), and so the way down from any node ends
(`exists_bounded`).
-/
namespace ShellToDeno

namespace Text

def isJoint (b : UInt8) : Bool := b == '&' || b == '|'

/-- How often a joint follows itself, as in `&&` and `||`. -/
def junctions : Text → Nat
  | a :: b :: rest => (if a == b && isJoint a then 1 else 0) + junctions (b :: rest)
  | [_] | [] => 0

theorem junctions_le_cons (a : UInt8) (t : Text) : junctions t ≤ junctions (a :: t) := by
  cases t with
  | nil => exact Nat.le_refl 0
  | cons b rest =>
    rw [junctions]
    omega

theorem junctions_append_le (s t : Text) : junctions s + junctions t ≤ junctions (s ++ t) := by
  induction s with
  | nil => simp [junctions]
  | cons a s ih =>
    cases s with
    | nil =>
      have := junctions_le_cons a t
      simpa [junctions] using this
    | cons b rest =>
      rw [List.cons_append] at ih
      rw [List.cons_append, List.cons_append, junctions, junctions]
      omega

/-- A text without joints. -/
def IsQuiet (t : Text) : Prop := ∀ b ∈ t, isJoint b = false

instance (t : Text) : Decidable t.IsQuiet :=
  decidable_of_iff (t.all fun b => !isJoint b) (by simp [IsQuiet])

theorem IsQuiet.append {s t : Text} (first : IsQuiet s) (second : IsQuiet t) : IsQuiet (s ++ t) :=
  List.forall_mem_append.2 ⟨first, second⟩

theorem junctions_cons_quiet {a : UInt8} (quiet : isJoint a = false) (t : Text) :
    junctions (a :: t) = junctions t := by
  cases t with
  | nil => rfl
  | cons b rest => simp [junctions, quiet]

theorem junctions_quiet_append {quiet : Text} (none : IsQuiet quiet) (t : Text) :
    junctions (quiet ++ t) = junctions t := by
  induction quiet with
  | nil => rfl
  | cons a rest ih =>
    obtain ⟨here, rest⟩ := List.forall_mem_cons.1 none
    rw [List.cons_append, junctions_cons_quiet here, ih rest]

/-- Between two texts that a quiet one keeps apart no junction comes to be. -/
theorem junctions_parted {quiet : Text} (none : IsQuiet quiet) (some : quiet ≠ []) (s t : Text) :
    junctions (s ++ (quiet ++ t)) = junctions s + junctions t := by
  induction s with
  | nil => simp [junctions_quiet_append none, junctions]
  | cons a s ih =>
    cases s with
    | nil =>
      cases quiet with
      | nil => exact absurd rfl some
      | cons q rest =>
        have alone : isJoint q = false := none q List.mem_cons_self
        have differ : (a == q && isJoint a) = false := by
          by_cases same : a = q
          · simp [same, alone]
          · simp [same]
        have rest := junctions_quiet_append none t
        rw [List.cons_append] at rest
        simp [junctions, differ, rest]
    | cons b rest =>
      rw [List.cons_append] at ih
      rw [List.cons_append, List.cons_append, junctions, ih, junctions]
      omega

/-- The junctions of a text are those of its parts between quiet ones. -/
theorem junctions_between {front middle back : Text} (opens : IsQuiet front)
    (parts : IsQuiet middle)
    (parted : middle ≠ []) (closes : IsQuiet back) (closed : back ≠ []) (s t : Text) :
    junctions (front ++ (s ++ (middle ++ (t ++ back)))) = junctions s + junctions t := by
  have last := junctions_parted closes closed t []
  rw [List.append_nil, junctions] at last
  rw [junctions_quiet_append opens, junctions_parted parts parted, last, Nat.add_zero]

theorem junctions_slice_le {source shown : Text} {a b : Int}
    (cut : slice? source a b = some shown) :
    junctions shown ≤ junctions source := by
  rw [slice?] at cut
  split at cut
  · obtain rfl := Option.some.inj cut
    have front := junctions_append_le (source.take a.toNat) (source.drop a.toNat)
    have back := junctions_append_le ((source.drop a.toNat).take (b - a).toNat)
      ((source.drop a.toNat).drop (b - a).toNat)
    rw [List.take_append_drop] at front back
    omega
  · cases cut

end Text

namespace Node

open Text

/-- The junctions in the texts of some nodes. -/
def junctionsIn (nodes : List Node) : Nat := (nodes.map fun n => junctions n.text).sum

/-- Nodes in order have no junction in common. -/
theorem junctionsIn_le {source shown : Text} {a b : Int} {nodes : List Node}
    (laid : ∀ n ∈ nodes, Laid source n) (ordered : Ordered a b nodes)
    (cut : slice? source a b = some shown) : junctionsIn nodes ≤ junctions shown := by
  induction nodes generalizing a shown with
  | nil => exact Nat.zero_le _
  | cons n rest ih =>
    obtain ⟨before, within, ordered⟩ := ordered
    have here := (laid n List.mem_cons_self).here
    have bounds := here.bounds
    have outer : 0 ≤ a ∧ a ≤ b ∧ b ≤ source.length := by
      rw [slice?] at cut
      split at cut
      · assumption
      · cases cut
    have last : n.stop ≤ b := ordered_le ordered
    obtain ⟨front, cutFront⟩ : ∃ t, slice? source a n.start = some t :=
      ⟨_, if_pos ⟨outer.1, before, by omega⟩⟩
    obtain ⟨back, cutBack⟩ : ∃ t, slice? source n.stop b = some t :=
      ⟨_, if_pos ⟨by omega, last, outer.2.2⟩⟩
    have whole := slice?_append (slice?_append cutFront here.text) cutBack
    obtain rfl : shown = front ++ n.text ++ back := Option.some.inj (cut.symm.trans whole)
    have behind := ih (fun m member => laid m (List.mem_cons_of_mem n member)) ordered cutBack
    have first := junctions_append_le front n.text
    have second := junctions_append_le (front ++ n.text) back
    have sum : junctionsIn (n :: rest) = junctions n.text + junctionsIn rest := List.sum_cons
    omega
where
  ordered_le {a b : Int} : ∀ {nodes : List Node}, Ordered a b nodes → a ≤ b
    | [], ordered => ordered
    | _ :: _, ⟨before, within, ordered⟩ =>
      Int.le_trans before (Int.le_trans within (ordered_le ordered))

theorem junctions_child_le {source : Text} {n c : Node} (laid : Laid source n)
    (member : c ∈ n.children) : junctions c.text ≤ junctions n.text := by
  have all := junctionsIn_le laid.inside laid.here.ordered laid.here.text
  have one : junctions c.text ≤ junctionsIn n.children :=
    List.single_le_sum (by simp) _ (List.mem_map_of_mem member)
  omega

end Node

namespace Compile

open Text Node

/-- The sides of a list and one node that is not among them. -/
theorem junctionsIn_sides {nodes : List Node} {joint : Node} (member : joint ∈ nodes)
    (apart : isSide joint = false) :
    junctionsIn (nodes.filter isSide) + junctions joint.text ≤ junctionsIn nodes := by
  have sides (nodes : List Node) : junctionsIn (nodes.filter isSide) ≤ junctionsIn nodes :=
    List.Sublist.sum_le_sum (List.filter_sublist.map _) (by simp)
  induction nodes with
  | nil => cases member
  | cons n rest ih =>
    have sum : junctionsIn (n :: rest) = junctions n.text + junctionsIn rest := List.sum_cons
    rcases List.mem_cons.1 member with rfl | member
    · have := sides rest
      rw [List.filter_cons_of_neg (by simp [apart])]
      omega
    · have behind := ih member
      by_cases side : isSide n = true
      · rw [List.filter_cons_of_pos side]
        have filtered : junctionsIn (n :: rest.filter isSide) =
            junctions n.text + junctionsIn (rest.filter isSide) := List.sum_cons
        omega
      · rw [List.filter_cons_of_neg side]
        omega

theorem of_listParts? {n left right : Node} {junction : Junction}
    (parts : listParts? n = some (left, junction, right)) :
    n.children.filter isSide = [left, right] ∧
      ∃ joint ∈ n.children, Junction.ofKind? joint.kind = some junction := by
  unfold listParts? at parts
  dsimp only at parts
  split at parts
  · next sides found =>
    cases parts
    exact ⟨sides, List.mem_filterMap.1 (List.mem_of_getLast? found)⟩
  · cases parts

/-- The operator between the sides of a list is a junction of its own. -/
theorem junctions_listParts {source : Text} {n left right : Node} {junction : Junction}
    (laid : Laid source n) (parts : listParts? n = some (left, junction, right)) :
    junctions left.text + junctions right.text < junctions n.text := by
  obtain ⟨sides, joint, member, kind⟩ := of_listParts? parts
  have apart : isSide joint = false := by simp [isSide, kind]
  have spelled : junctions joint.text = 1 := by
    have shown := (laid.inside joint member).here
    unfold Junction.ofKind? at kind
    split at kind
    · next same => rw [shown.spelled _ (eq_of_beq same)]; decide
    · split at kind
      · next same => rw [shown.spelled _ (eq_of_beq same)]; decide
      · cases kind
  have counted := junctionsIn_sides member apart
  have whole := junctionsIn_le laid.inside laid.here.ordered laid.here.text
  rw [sides] at counted
  have pair : junctionsIn [left, right] = junctions left.text + junctions right.text := by
    simp [junctionsIn]
  omega

/-- A guarded script has no junctions but those of its two parts. -/
theorem junctions_guardedScript {indent jump : Text} (blank : ∀ b ∈ indent, b = ' ' ∨ b = '\t')
    (left : Node) (junction : Junction) :
    junctions (guardedScript indent left junction jump) = junctions left.text + junctions jump := by
  have quiet : IsQuiet indent := by
    intro b member
    rcases blank b member with rfl | rfl <;> decide
  have around (opening closing : Text) (opens : IsQuiet opening) (closes : IsQuiet closing) :
      junctions ("\n" ++ indent ++ "if " ++ (opening ++ left.text ++ closing) ++
        "; then\n" ++ indent ++
        "    " ++ jump ++ "\n" ++ indent ++ "fi\n") = junctions left.text + junctions jump := by
    have front : IsQuiet ("\n" ++ indent ++ "if " ++ opening) :=
      ((IsQuiet.append (by decide) quiet).append (by decide)).append opens
    have middle : IsQuiet (closing ++ ("; then\n" ++ indent ++ "    ")) :=
      closes.append ((IsQuiet.append (by decide) quiet).append (by decide))
    have back : IsQuiet ("\n" ++ indent ++ "fi\n") :=
      (IsQuiet.append (by decide) quiet).append (by decide)
    have parted := junctions_between front middle (List.append_ne_nil_of_right_ne_nil _ nofun) back
      nofun left.text jump
    simpa only [List.append_assoc] using parted
  unfold guardedScript
  dsimp only
  split
  · simpa using around [] [] (by decide) (by decide)
  · split
    · exact around _ _ (by decide) (by decide)
    · simpa using around "! " [] (by decide) (by decide)

/-- The if statement of a script is a node of its tree. -/
theorem of_ifOf? {script : Text} {statement : Node} (found : ifOf? script = some statement) :
    ∃ tree, Node.parse script = .ok tree ∧ statement ∈ Node.select [.of .ifStatement] tree := by
  unfold ifOf? at found
  split at found
  · cases found
  next tree parsed =>
  split at found
  · cases found
  next answer queried =>
  have chain : Selector.chain "(if_statement)" = .ok [.of .ifStatement] := by decide +kernel
  rw [Node.queryFirst_eq_head?, Node.query, chain] at queried
  exact ⟨tree, parsed, List.mem_of_mem_head? ((Except.ok.inj queried).trans found)⟩

/-- The if statement of a script is laid out over it. -/
theorem laid_of_ifOf? {script : Text} {statement : Node} (found : ifOf? script = some statement) :
    statement.Laid script := by
  obtain ⟨tree, parsed, member⟩ := of_ifOf? found
  exact (of_mem_select Everywhere.inside tree (laid_of_parse parsed) member).2

/-- The statement that a jump is rewritten to has fewer junctions than the list it comes from. -/
theorem junctions_guard {source : Text} {n statement : Node} (laid : Laid source n)
    (guarded : guard? n = some statement) :
    (∃ script, statement.Laid script) ∧ junctions statement.text < junctions n.text := by
  obtain ⟨script, scripted, found⟩ := Option.bind_eq_some_iff.1 guarded
  have shown := laid_of_ifOf? found
  refine ⟨⟨script, shown⟩, ?_⟩
  unfold jumpScript? at scripted
  split at scripted
  · cases scripted
  next parts =>
  split at scripted
  · obtain rfl := Option.some.inj scripted
    have inside := junctions_slice_le shown.here.text
    rw [junctions_guardedScript laid.here.blank] at inside
    have fewer := junctions_listParts laid parts
    omega
  · cases scripted

end Compile

namespace Node

open Text Compile

/-- The compiler goes less than `depth` nodes down from a node. -/
def Bounded : Nat → Node → Prop
  | 0, _ => False
  | depth + 1, n => (∀ c ∈ n.children, Bounded depth c) ∧
    ∀ statement, n.kind = .list → guard? n = some statement → Bounded depth statement

theorem Bounded.mono {d e : Nat} (le : d ≤ e) {n : Node} (bounded : n.Bounded d) : n.Bounded e := by
  induction d generalizing e n with
  | zero => exact bounded.elim
  | succ d ih =>
    obtain ⟨e, rfl⟩ : ∃ f, e = f + 1 := ⟨e - 1, by omega⟩
    have less : d ≤ e := Nat.le_of_succ_le_succ le
    exact ⟨fun c member => ih less (bounded.1 c member),
      fun statement kind guarded => ih less (bounded.2 statement kind guarded)⟩

theorem Bounded.child {depth : Nat} {n c : Node} (bounded : n.Bounded depth)
    (member : c ∈ n.children) :
    c.Bounded depth := by
  cases depth with
  | zero => exact bounded.elim
  | succ depth => exact (bounded.1 c member).mono (Nat.le_succ depth)

/-- A leaf can be compiled wherever another node can. -/
theorem Bounded.leaf {depth : Nat} {n : Node} (bounded : n.Bounded depth) (text : Text) :
    (leaf .word text).Bounded depth := by
  cases depth with
  | zero => exact bounded.elim
  | succ depth => exact ⟨nofun, nofun⟩

theorem exists_bounded_all {nodes : List Node} (each : ∀ n ∈ nodes, ∃ depth, n.Bounded depth) :
    ∃ depth, ∀ n ∈ nodes, n.Bounded depth := by
  induction nodes with
  | nil => exact ⟨0, nofun⟩
  | cons n rest ih =>
    obtain ⟨d, first⟩ := each n List.mem_cons_self
    obtain ⟨e, others⟩ := ih fun m member => each m (List.mem_cons_of_mem n member)
    refine ⟨max d e, List.forall_mem_cons.2 ⟨first.mono (Nat.le_max_left d e), ?_⟩⟩
    exact fun m member => (others m member).mono (Nat.le_max_right d e)

/-- A node is bounded if its children are and the statement it may be rewritten to is. -/
theorem exists_bounded_of {n : Node} (children : ∀ c ∈ n.children, ∃ depth, c.Bounded depth)
    (guarded : ∀ statement, guard? n = some statement → ∃ depth, statement.Bounded depth) :
    ∃ depth, n.Bounded depth := by
  obtain ⟨d, below⟩ := exists_bounded_all children
  cases found : guard? n with
  | none => exact ⟨d + 1, below, fun _ _ some => by rw [found] at some; cases some⟩
  | some statement =>
    obtain ⟨e, beside⟩ := guarded statement found
    refine ⟨max d e + 1, fun c member => (below c member).mono (Nat.le_max_left d e), ?_⟩
    intro other _ some
    rw [found] at some
    cases some
    exact beside.mono (Nat.le_max_right d e)

theorem exists_bounded_of_laid {source : Text} {n : Node} (laid : Laid source n) :
    ∃ depth, n.Bounded depth := by
  generalize count : junctions n.text = j
  induction j using Nat.strongRecOn generalizing source n with
  | ind j ih =>
    have below : ∀ m, Laid source m → junctions m.text ≤ j → ∃ depth, m.Bounded depth := by
      intro m laid
      induction laid with
      | @mk m here inside ihInside =>
        intro le
        have laid : Laid source m := .mk here inside
        refine exists_bounded_of (fun c member => ?_) fun statement guarded => ?_
        · have fewer := junctions_child_le laid member
          exact ihInside c member (by omega)
        · obtain ⟨⟨script, shown⟩, fewer⟩ := junctions_guard laid guarded
          exact ih _ (by omega) shown rfl
    exact below n laid (by omega)

mutual

/-- Any tree, read from a script or not, is bounded. -/
theorem exists_bounded (n : Node) : ∃ depth, n.Bounded depth := by
  match n with
  | ⟨kind, text, children, indent, start, stop⟩ =>
    refine exists_bounded_of (exists_bounded_each children) fun statement guarded => ?_
    obtain ⟨script, _, found⟩ := Option.bind_eq_some_iff.1 guarded
    exact exists_bounded_of_laid (laid_of_ifOf? found)

theorem exists_bounded_each (nodes : List Node) : ∀ n ∈ nodes, ∃ depth, n.Bounded depth := by
  match nodes with
  | [] => exact nofun
  | n :: rest => exact List.forall_mem_cons.2 ⟨exists_bounded n, exists_bounded_each rest⟩

end

end Node

end ShellToDeno
