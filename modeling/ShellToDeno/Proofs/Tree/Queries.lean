import ShellToDeno.Tree.Query
import Mathlib.Data.List.Forall2

/-!
# What a query finds

A place leads from the root of a tree to one of its nodes, child by child, so equal nodes at
different places stay apart, and the order of places is pre-order. A place answers a chain of
selectors if the last one fits its node and the others fit nodes above it, in their order. A query
takes the highest node that the next selector fits and never goes back. That loses nothing, since
whatever else could be chosen for the selectors after it lies below that node as well
(`climbs_of_fits`). So a query lists exactly the places that answer its chain
(`query_lists_answers`).
-/
namespace ShellToDeno

/-- The way to a node of a tree: the number of the child to enter, level by level. -/
abbrev Place := List Nat

namespace Place

/-- One place is on the way to another. -/
def Above (p q : Place) : Prop := p <+: q ∧ p ≠ q

variable {i : Nat} {p q : Place}

theorem Above.ne_nil (above : Above p q) : q ≠ [] := by
  rintro rfl
  exact above.2 (List.prefix_nil.1 above.1)

theorem nil_above (inner : q ≠ []) : Above [] q := ⟨List.nil_prefix, Ne.symm inner⟩

theorem cons_above_cons : Above (i :: p) (i :: q) ↔ Above p q := by
  simp [Above]

/-- The same place, one sibling further on. -/
def next : Place → Place := List.modifyHead (· + 1)

theorem next_lt_next (less : p < q) : next p < next q := by
  cases p with
  | nil =>
    cases q with
    | nil => exact absurd less (List.lt_irrefl _)
    | cons j q => exact List.nil_lt_cons ..
  | cons i p =>
    cases q with
    | nil => exact absurd less (List.not_lt_nil _)
    | cons j q =>
      rcases List.cons_lt_cons_iff.1 less with early | ⟨rfl, later⟩
      · exact List.cons_lt_cons_iff.2 (.inl (Nat.succ_lt_succ early))
      · exact List.cons_lt_cons_iff.2 (.inr ⟨rfl, later⟩)

theorem mem_map_next {places : List Place} : (i + 1) :: p ∈ places.map next ↔ i :: p ∈ places := by
  rw [List.mem_map]
  constructor
  · rintro ⟨q, member, same⟩
    cases q with
    | nil => cases same
    | cons j q =>
      obtain ⟨step, rfl⟩ := List.cons.inj same
      obtain rfl : j = i := Nat.succ.inj step
      exact member
  · intro member
    exact ⟨i :: p, member, rfl⟩

theorem zero_not_mem_map_next {places : List Place} : 0 :: p ∉ places.map next := by
  rw [List.mem_map]
  rintro ⟨q, _, same⟩
  cases q with
  | nil => cases same
  | cons j q => exact absurd (List.cons.inj same).1 (Nat.succ_ne_zero j)

end Place

namespace Node

def at? : Node → Place → Option Node
  | n, [] => some n
  | n, i :: place => n.children[i]?.bind fun child => child.at? place

/-- The node at a place that begins with the number of one of some siblings. -/
def below? (nodes : List Node) : Place → Option Node
  | [] => none
  | i :: place => nodes[i]?.bind fun n => n.at? place

theorem below?_next (n : Node) (nodes : List Node) (place : Place) :
    below? (n :: nodes) place.next = below? nodes place := by
  cases place <;> rfl

/-- A selector fits the node at a place. -/
def FitsAt (look : Place → Option Node) (selector : Selector) (place : Place) : Prop :=
  ∃ n, look place = some n ∧ selector.fits n

/-- Places one below the other, the last of them a given one, which the selectors of a chain fit. -/
def Climbs (look : Place → Option Node) (chain : List Selector) (place : Place) : Prop :=
  ∃ ladder : List Place, ladder.getLast? = some place ∧ ladder.Pairwise Place.Above ∧
    List.Forall₂ (FitsAt look) chain ladder

/-- The last selector of a chain fits the node at a place, and the others fit nodes above it in the
tree, from the top down. -/
def Answers (root : Node) (chain : List Selector) (place : Place) : Prop :=
    Climbs root.at? chain place

variable {n : Node} {nodes : List Node} {chain rest : List Selector} {first next last : Selector}
  {place : Place}

/-! A ladder in a tree, and in the trees below its root. -/

theorem fitsAt_below? (inner : place ≠ []) :
    FitsAt (below? n.children) last place ↔ FitsAt n.at? last place := by
  cases place with
  | nil => exact absurd rfl inner
  | cons i place => exact Iff.rfl

theorem ne_nil_of_fitsAt_below? (fits : FitsAt (below? nodes) last place) : place ≠ [] := by
  rintro rfl
  obtain ⟨_, found, _⟩ := fits
  cases found

theorem forall₂_below? {ladder : List Place} (inner : ∀ p ∈ ladder, p ≠ []) :
    List.Forall₂ (FitsAt (below? n.children)) chain ladder ↔
      List.Forall₂ (FitsAt n.at?) chain ladder := by
  rw [List.forall₂_iff_zip, List.forall₂_iff_zip]
  refine and_congr_right fun _ => forall_congr' fun selector => forall_congr' fun p => ?_
  exact imp_congr_right fun inside => fitsAt_below? (inner p (List.of_mem_zip inside).2)

theorem inner_of_forall₂ {ladder : List Place}
    (fits : List.Forall₂ (FitsAt (below? nodes)) chain ladder) : ∀ p ∈ ladder, p ≠ [] := by
  induction fits with
  | nil => exact List.forall_mem_nil _
  | cons fit _ ih => exact List.forall_mem_cons.2 ⟨ne_nil_of_fitsAt_below? fit, ih⟩

/-- What climbs below the root climbs in the tree. -/
theorem Climbs.of_below? (climbs : Climbs (below? n.children) chain place) :
    Climbs n.at? chain place := by
  obtain ⟨ladder, final, above, fits⟩ := climbs
  exact ⟨ladder, final, above, (forall₂_below? (inner_of_forall₂ fits)).1 fits⟩

theorem climbs_last :
    Climbs n.at? [last] place ↔ place = [] ∧ last.fits n ∨
    Climbs (below? n.children) [last] place := by
  constructor
  · rintro ⟨ladder, final, above, fits⟩
    obtain ⟨p, rfl⟩ := List.length_eq_one_iff.1 fits.length_eq.symm
    obtain rfl : p = place := Option.some.inj final
    by_cases root : p = []
    · subst root
      obtain ⟨⟨m, found, fit⟩, _⟩ := List.forall₂_cons.1 fits
      obtain rfl : n = m := Option.some.inj found
      exact .inl ⟨rfl, fit⟩
    · exact .inr ⟨[p], rfl, above, (forall₂_below? (by simpa using root)).2 fits⟩
  · rintro (⟨rfl, fit⟩ | climbs)
    · exact ⟨[[]], rfl, List.pairwise_singleton .., .cons ⟨n, rfl, fit⟩ .nil⟩
    · exact climbs.of_below?

/-- Where the first selector fits the root, the others may be looked for anywhere below it: a ladder
that begins further down can begin at the root instead. -/
theorem climbs_of_fits (fits : first.fits n) :
    Climbs n.at? (first :: next :: rest) place ↔
    Climbs (below? n.children) (next :: rest) place := by
  constructor
  · rintro ⟨ladder, final, above, fitted⟩
    cases fitted with
    | @cons _ p _ ladder _ later =>
      have inner : ∀ q ∈ ladder, q ≠ [] := fun q member =>
        (List.rel_of_pairwise_cons above member).ne_nil
      obtain ⟨q, ladder, rfl⟩ : ∃ q more, ladder = q :: more := by
        cases later with
        | cons _ _ => exact ⟨_, _, rfl⟩
      exact ⟨q :: ladder, final, above.of_cons, (forall₂_below? inner).2 later⟩
  · rintro ⟨ladder, final, above, fitted⟩
    have inner := inner_of_forall₂ fitted
    obtain ⟨q, ladder, rfl⟩ : ∃ q more, ladder = q :: more := by
      cases fitted with
      | cons _ _ => exact ⟨_, _, rfl⟩
    refine ⟨[] :: q :: ladder, final, List.pairwise_cons.2 ⟨?_, above⟩, ?_⟩
    · exact fun p member => Place.nil_above (inner p member)
    · exact .cons ⟨n, rfl, fits⟩ ((forall₂_below? inner).1 fitted)

theorem climbs_of_not_fits (unfit : ¬first.fits n) :
    Climbs n.at? (first :: next :: rest) place ↔
      Climbs (below? n.children) (first :: next :: rest) place := by
  constructor
  · rintro ⟨ladder, final, above, fitted⟩
    refine ⟨ladder, final, above, (forall₂_below? ?_).2 fitted⟩
    cases fitted with
    | @cons _ p _ ladder fit _ =>
      refine List.forall_mem_cons.2 ⟨?_, fun q member =>
        (List.rel_of_pairwise_cons above member).ne_nil⟩
      rintro rfl
      obtain ⟨m, found, fit⟩ := fit
      obtain rfl : n = m := Option.some.inj found
      exact unfit fit
  · exact Climbs.of_below?

/-- The search moves on in the chain at every node that its first selector fits. -/
theorem climbs_moves_on :
    Climbs n.at? (first :: next :: rest) place ↔
      Climbs (below? n.children) (if first.fits n then next :: rest else first :: next :: rest)
      place := by
  by_cases fits : first.fits n
  · rw [if_pos fits]
    exact climbs_of_fits fits
  · rw [if_neg fits]
    exact climbs_of_not_fits fits

/-- A ladder below some siblings stays below one of them. -/
theorem climbs_below?_cons {i : Nat} :
    Climbs (below? nodes) chain (i :: place) ↔ ∃ m,
    nodes[i]? = some m ∧ Climbs m.at? chain place := by
  have entered {m : Node} (found : nodes[i]? = some m) (ladder : List Place) :
      List.Forall₂ (FitsAt (below? nodes)) chain (ladder.map (i :: ·)) ↔
        List.Forall₂ (FitsAt m.at?) chain ladder := by
    have same (selector : Selector) (p : Place) :
        FitsAt (below? nodes) selector (i :: p) = FitsAt m.at? selector p := by
      simp only [FitsAt, below?, found, Option.bind_some]
    simp only [List.forall₂_map_right_iff, same]
  have deepened (ladder : List Place) :
      (ladder.map (i :: ·)).Pairwise Place.Above ↔ ladder.Pairwise Place.Above := by
    simp only [List.pairwise_map, Place.cons_above_cons]
  constructor
  · rintro ⟨ladder, final, above, fits⟩
    have under : ladder = (ladder.map List.tail).map (i :: ·) := by
      rw [List.map_map, List.map_congr_left (g := id), List.map_id]
      intro p member
      obtain ⟨before, rfl⟩ := List.getLast?_eq_some_iff.1 final
      have leads : p <+: i :: place := by
        rcases List.mem_append.1 member with early | final
        · exact ((List.pairwise_append.1 above).2.2 p early _ (List.mem_singleton_self _)).1
        · exact (List.mem_singleton.1 final) ▸ List.prefix_rfl
      obtain ⟨j, p, rfl⟩ := List.exists_cons_of_ne_nil (inner_of_forall₂ fits p member)
      obtain ⟨rfl, _⟩ := List.cons_prefix_cons.1 leads
      rfl
    generalize ladder.map List.tail = lower at under
    subst under
    rw [List.getLast?_map, Option.map_eq_some_iff] at final
    obtain ⟨p, final, same⟩ := final
    obtain rfl := (List.cons.inj same).2
    obtain ⟨m, found⟩ : ∃ m, nodes[i]? = some m := by
      obtain ⟨q, lower, rfl⟩ : ∃ q more, lower = q :: more :=
        List.exists_cons_of_ne_nil (by rintro rfl; cases final)
      cases fits with
      | cons fit _ =>
        obtain ⟨_, reached, _⟩ := fit
        obtain ⟨m, found, _⟩ := Option.bind_eq_some_iff.1 reached
        exact ⟨m, found⟩
    exact ⟨m, found, lower, final, (deepened lower).1 above, (entered found lower).1 fits⟩
  · rintro ⟨m, found, ladder, final, above, fits⟩
    refine ⟨ladder.map (i :: ·), ?_, (deepened ladder).2 above, (entered found ladder).2 fits⟩
    rw [List.getLast?_map, final]
    rfl

theorem not_climbs_below?_nil : ¬Climbs (below? nodes) chain [] := by
  rintro ⟨ladder, final, _, fits⟩
  exact inner_of_forall₂ fits [] (List.mem_of_getLast? final) rfl

/-! What a query lists. -/

/-- Some nodes are those at the places with a property, each listed once and in pre-order. -/
def Lists (look : Place → Option Node) (wanted : Place → Prop) (found : List Node) : Prop :=
  ∃ places : List Place, places.Pairwise (· < ·) ∧ (∀ place, place ∈ places ↔ wanted place) ∧
    places.map look = found.map some

theorem Lists.congr {look : Place → Option Node} {wanted other : Place → Prop} {found : List Node}
    (lists : Lists look wanted found) (same : ∀ place, other place ↔ wanted place) :
    Lists look other found := by
  obtain ⟨places, ordered, listed, reached⟩ := lists
  exact ⟨places, ordered, fun place => (listed place).trans (same place).symm, reached⟩

/-- What is listed of one tree, and then what is listed of its siblings. -/
theorem Lists.siblings {found others : List Node} (first : Lists n.at? (Climbs n.at? chain) found)
    (later : Lists (below? nodes) (Climbs (below? nodes) chain) others) :
    Lists (below? (n :: nodes)) (Climbs (below? (n :: nodes)) chain) (found ++ others) := by
  obtain ⟨places, ordered, listed, reached⟩ := first
  obtain ⟨more, orderedMore, listedMore, reachedMore⟩ := later
  have outer : [] ∉ more := fun member => not_climbs_below?_nil ((listedMore []).1 member)
  refine ⟨places.map (0 :: ·) ++ more.map Place.next, List.pairwise_append.2 ⟨?_, ?_, ?_⟩, ?_, ?_⟩
  · exact ordered.map _ fun p q less => List.cons_lt_cons_iff.2 (.inr ⟨rfl, less⟩)
  · exact orderedMore.map _ fun _ _ => Place.next_lt_next
  · intro p early q late
    obtain ⟨p, _, rfl⟩ := List.mem_map.1 early
    obtain ⟨_ | ⟨i, q⟩, member, rfl⟩ := List.mem_map.1 late
    · exact absurd member outer
    · exact List.cons_lt_cons_iff.2 (.inl (Nat.succ_pos i))
  · intro place
    rw [List.mem_append]
    rcases place with _ | ⟨_ | i, place⟩
    · refine iff_of_false ?_ not_climbs_below?_nil
      rw [List.mem_map, List.mem_map]
      rintro (⟨_, _, same⟩ | ⟨_ | _, member, same⟩)
      · cases same
      · exact outer member
      · cases same
    · rw [or_iff_left Place.zero_not_mem_map_next, climbs_below?_cons]
      simp [listed]
    · rw [Place.mem_map_next, listedMore, climbs_below?_cons, climbs_below?_cons]
      simp
  · rw [List.map_append, List.map_append, ← reached, ← reachedMore, List.map_map, List.map_map]
    exact congrArg _ (List.map_congr_left fun place _ => below?_next n nodes place)

/-- The root itself is listed before what lies below it. -/
theorem Lists.root {wanted : Place → Prop} {found : List Node} (fits : Bool)
    (lists : Lists (below? n.children) wanted found) (inner : ¬wanted []) :
    Lists n.at? (fun place => place = [] ∧ fits ∨ wanted place)
      ((if fits then [n] else []) ++ found) := by
  obtain ⟨places, ordered, listed, reached⟩ := lists
  have outer : ∀ place ∈ places, place ≠ [] := by
    rintro place member rfl
    exact inner ((listed []).1 member)
  have same : places.map n.at? = places.map (below? n.children) := by
    refine List.map_congr_left fun place member => ?_
    obtain ⟨i, place, rfl⟩ := List.exists_cons_of_ne_nil (outer place member)
    rfl
  cases fits with
  | false => exact ⟨places, ordered, by simpa using listed, same.trans reached⟩
  | true =>
    refine ⟨[] :: places, List.pairwise_cons.2 ⟨?_, ordered⟩, by simp [listed], ?_⟩
    · intro place member
      obtain ⟨i, place, rfl⟩ := List.exists_cons_of_ne_nil (outer place member)
      exact List.nil_lt_cons ..
    · exact congrArg (some n :: ·) (same.trans reached)

mutual

/-- By the steps of the search: at each node it either moves on in the chain or not. -/
theorem lists_select : (chain : List Selector) → (n : Node) →
    Lists n.at? (Climbs n.at? chain) (select chain n)
  | [], n => by
    rw [select]
    refine ⟨[], .nil, fun place => iff_of_false List.not_mem_nil ?_, rfl⟩
    rintro ⟨_, final, _, fits⟩
    cases fits
    cases final
  | [last], ⟨kind, text, children, indent, start, stop⟩ => by
    rw [select]
    refine Lists.congr (.root _ (lists_selectAll [last] children) not_climbs_below?_nil)
      fun place => ?_
    exact climbs_last
  | first :: next :: rest, ⟨kind, text, children, indent, start, stop⟩ => by
    rw [select]
    refine Lists.congr (.root false (lists_selectAll _ children) not_climbs_below?_nil)
      fun place => ?_
    rw [climbs_moves_on]
    simp

theorem lists_selectAll (chain : List Selector) : (nodes : List Node) →
    Lists (below? nodes) (Climbs (below? nodes) chain) (selectAll chain nodes)
  | [] => by
    rw [selectAll]
    refine ⟨[], .nil, fun place => iff_of_false List.not_mem_nil ?_, rfl⟩
    cases place with
    | nil => exact not_climbs_below?_nil
    | cons i place =>
      rw [climbs_below?_cons]
      simp
  | n :: rest => by
    rw [selectAll]
    exact (lists_select chain n).siblings (lists_selectAll chain rest)

end

/-- A query lists the places that answer its chain, each once and in pre-order, and the first of the
nodes there is what the query for one node finds. -/
theorem query_lists_answers (root : Node) {pattern : Text} {chain : List Selector}
    (read : Selector.chain pattern = .ok chain) :
    ∃ (places : List Place) (found : List Node), root.query pattern = .ok found ∧
      root.queryFirst pattern = .ok found.head? ∧ places.map root.at? = found.map some ∧
      places.Pairwise (· < ·) ∧ ∀ place, place ∈ places ↔ root.Answers chain place := by
  obtain ⟨places, ordered, listed, reached⟩ := lists_select chain root
  refine ⟨places, select chain root, ?_, ?_, reached, ordered, listed⟩
  · rw [query, read]
    rfl
  · rw [queryFirst_eq_head?, query, read]
    rfl

/-- The tree of a list in a list, with a word in each. -/
def nestedLists : Node :=
  ⟨.list, "ab", [.leaf .word "a", ⟨.list, "b", [.leaf .word "b"], [], 0, 0⟩], [], 0, 0⟩

/-- The inner word has both lists above it, the outer word has not. -/
theorem query_lists_answers_nested :
    Selector.chain "(list) (_) (word)" = .ok [.of .list, .any, .of .word] ∧
    ∃ (places : List Place) (found : List Node), [1, 0] ∈ places ∧
      nestedLists.query "(list) (_) (word)" = .ok found ∧
      nestedLists.queryFirst "(list) (_) (word)" = .ok found.head? ∧
      places.map nestedLists.at? = found.map some ∧ places.Pairwise (· < ·) ∧
      ∀ place, place ∈ places ↔ nestedLists.Answers [.of .list, .any, .of .word] place := by
  have read : Selector.chain "(list) (_) (word)" =
      .ok [.of .list, .any, .of .word] := by decide +kernel
  obtain ⟨places, found, listed⟩ := query_lists_answers nestedLists read
  have inner : nestedLists.Answers [.of .list, .any, .of .word] [1, 0] := by
    refine ⟨[[], [1], [1, 0]], rfl, by simp [Place.Above], ?_⟩
    exact .cons ⟨_, rfl, rfl⟩ (.cons ⟨_, rfl, rfl⟩ (.cons ⟨_, rfl, rfl⟩ .nil))
  exact ⟨read, places, found, (listed.2.2.2.2 [1, 0]).2 inner, listed⟩

section
variable {P : Node → Prop} {m : Node} {last : Selector}

mutual

/-- What a query finds fits its selector. Whatever a node hands on to its children holds of all that
is found below it. -/
theorem of_mem_select (handed : ∀ {n}, P n → ∀ c ∈ n.children, P c) (n : Node) (here : P n)
    (member : m ∈ select [last] n) : last.fits m ∧ P m := by
  match n with
  | ⟨kind, text, children, indent, start, stop⟩ =>
    rw [select] at member
    rcases List.mem_append.1 member with member | member
    · split at member
      · next fits =>
        rw [List.mem_singleton.1 member]
        exact ⟨fits, here⟩
      · cases member
    · exact of_mem_selectAll handed children (handed here) member

theorem of_mem_selectAll (handed : ∀ {n}, P n → ∀ c ∈ n.children, P c) (nodes : List Node)
    (here : ∀ n ∈ nodes, P n) (member : m ∈ selectAll [last] nodes) : last.fits m ∧ P m := by
  match nodes with
  | [] => cases member
  | n :: rest =>
    rw [selectAll] at member
    rcases List.mem_append.1 member with member | member
    · exact of_mem_select handed n (here n List.mem_cons_self) member
    · exact of_mem_selectAll handed rest (fun n listed =>
        here n (List.mem_cons_of_mem _ listed)) member

end

end

end Node

end ShellToDeno
