import ShellToDeno.Proofs.Quoting.CommandLine

/-!
# Nodes split into arguments

The nodes that are no layout are put into groups. Where a group ends depends only on the layout
between a node and the next one: they stay together if it does nothing but continue a line
(`Continues`). These rules leave no choice, so the arguments of some nodes are the only groups that
obey them (`splits_iff_eq_groups`).

Groups are the same as the list of their members with a mark on each that starts a group (`marks`).
The loop over the nodes sets these marks, and its flags say what is known of the layout passed so
far (`marked_gap`).
-/
namespace ShellToDeno.Arguments

instance : DecidablePred IsLayout := fun n =>
  inferInstanceAs (Decidable (n.isBackslash ∨ n.kind = .whitespace))

/-- The nodes that belong to arguments. -/
def content (nodes : List Node) : List Node := nodes.filter fun n => ¬IsLayout n

/-- Layout that continues a line: its white space is lone newlines, each after a backslash. -/
def Continues (gap : List Node) : Prop :=
  ∀ (before : List Node) (n : Node) (after : List Node), gap = before ++ n :: after →
    n.kind = .whitespace → n.text = "\n" ∧ ∃ m ∈ before, m.isBackslash

/-- The members with the numbers `i` and `i + 1` stand in one group. -/
def Together (gs : List (List Node)) (i : Nat) : Prop :=
  ∃ front g back, gs = front ++ g :: back ∧
    front.flatten.length ≤ i ∧ i + 1 < front.flatten.length + g.length

/-- Groups that hold the content of some nodes in its order. A node of it and the next one are
members of one group exactly if the layout between them continues a line. -/
structure Splits (nodes : List Node) (gs : List (List Node)) : Prop where
  proper : ∀ g ∈ gs, g ≠ []
  whole : gs.flatten = content nodes
  parted : ∀ (before : List Node) (a : Node) (gap : List Node) (b : Node) (after : List Node),
    nodes = before ++ a :: (gap ++ b :: after) → ¬IsLayout a → (∀ n ∈ gap, IsLayout n) →
    ¬IsLayout b → (Together gs (content before).length ↔ Continues gap)

/-! Marks -/

/-- The members of a group, the first one marked. -/
def marksOf : List Node → List (Bool × Node)
  | [] => []
  | n :: others => (true, n) :: others.map (false, ·)

/-- The members of all groups, those marked that start one. -/
def marks (gs : List (List Node)) : List (Bool × Node) := gs.flatMap marksOf

/-- A list that does not begin inside a group. -/
def StartsMarked (l : List (Bool × Node)) : Prop := ∀ entry ∈ l.head?, entry.1 = true

theorem StartsMarked.getElem {l : List (Bool × Node)} (starts : StartsMarked l)
    (inside : 0 < (l.map Prod.fst).length) : (l.map Prod.fst)[0] = true := by
  cases l with
  | nil => cases inside
  | cons entry l => exact starts entry rfl

theorem map_snd_marksOf (g : List Node) : (marksOf g).map Prod.snd = g := by
  cases g with
  | nil => rfl
  | cons n others => simp [marksOf, Function.comp_def]

theorem map_fst_marksOf (n : Node) (others : List Node) :
    (marksOf (n :: others)).map Prod.fst = true :: List.replicate others.length false := by
  rw [marksOf, List.map_cons, List.map_map]
  exact congrArg (true :: ·) List.map_const'

theorem map_snd_marks (gs : List (List Node)) : (marks gs).map Prod.snd = gs.flatten := by
  rw [marks, List.map_flatMap, List.flatten_eq_flatMap]
  exact congrArg (List.flatMap · gs) (funext map_snd_marksOf)

theorem startsMarked_marks (gs : List (List Node)) : StartsMarked (marks gs) := by
  induction gs with
  | nil => simp [StartsMarked, marks]
  | cons g gs ih =>
    cases g with
    | nil => exact ih
    | cons n others => simp [StartsMarked, marks, marksOf]

/-- A group is gathered up to the next node that is marked. -/
theorem gather_append (first : Bool) (n : Node) (others : List Node) {rest : List (Bool × Node)}
    (starts : StartsMarked rest) :
    gather ((first, n) :: (others.map (false, ·) ++ rest)) = (n :: others) :: gather rest := by
  induction others generalizing first n with
  | nil =>
    rw [List.map_nil, List.nil_append, gather]
    intro m tail g gs same _
    rw [same] at starts
    exact Bool.false_ne_true (starts (false, m) rfl)
  | cons m others ih =>
    have later := ih false m
    simp only [List.map_cons, List.cons_append, gather, later]

theorem gather_marks {gs : List (List Node)} (proper : ∀ g ∈ gs, g ≠ []) :
    gather (marks gs) = gs := by
  induction gs with
  | nil => rfl
  | cons g gs ih =>
    rw [List.forall_mem_cons] at proper
    obtain ⟨n, others, rfl⟩ := List.exists_cons_of_ne_nil proper.1
    refine (gather_append true n others (startsMarked_marks gs)).trans ?_
    rw [ih proper.2]

/-- Every list that starts with a mark is made of groups. -/
theorem exists_marks {l : List (Bool × Node)} (starts : StartsMarked l) :
    ∃ gs, marks gs = l ∧ ∀ g ∈ gs, g ≠ [] := by
  have parts : ∃ (others : List Node) (gs : List (List Node)),
      l = others.map (false, ·) ++ marks gs ∧ ∀ g ∈ gs, g ≠ [] := by
    clear starts
    induction l with
    | nil => exact ⟨[], [], rfl, List.forall_mem_nil _⟩
    | cons entry l ih =>
      obtain ⟨others, gs, rfl, proper⟩ := ih
      obtain ⟨first | first, n⟩ := entry
      · exact ⟨n :: others, gs, rfl, proper⟩
      · exact ⟨[], (n :: others) :: gs, rfl, List.forall_mem_cons.2 ⟨List.cons_ne_nil _ _, proper⟩⟩
  obtain ⟨others, gs, rfl, proper⟩ := parts
  cases others with
  | nil => exact ⟨gs, rfl, proper⟩
  | cons n others => exact absurd (starts (false, n) rfl) Bool.false_ne_true

theorem together_cons {g : List Node} {gs : List (List Node)} {i : Nat} :
    Together (g :: gs) i ↔ i + 1 < g.length ∨ g.length ≤ i ∧ Together gs (i - g.length) := by
  constructor
  · rintro ⟨front, group, back, same, low, high⟩
    cases front with
    | nil =>
      obtain ⟨rfl, rfl⟩ := List.cons.inj same
      exact .inl (by simpa using high)
    | cons f front =>
      obtain ⟨rfl, rfl⟩ := List.cons.inj same
      rw [List.flatten_cons, List.length_append] at low high
      exact .inr ⟨by omega, front, group, back, rfl, by omega, by omega⟩
  · rintro (inside | ⟨past, front, group, back, rfl, low, high⟩)
    · exact ⟨[], g, gs, rfl, Nat.zero_le _, by simpa using inside⟩
    · refine ⟨g :: front, group, back, rfl, ?_, ?_⟩
      · rw [List.flatten_cons, List.length_append]
        omega
      · rw [List.flatten_cons, List.length_append]
        omega

/-- Two members stand in one group if the second of them is not marked. -/
theorem together_iff {gs : List (List Node)} {i : Nat} :
    Together gs i ↔ ((marks gs).map Prod.fst)[i + 1]? = some false := by
  induction gs generalizing i with
  | nil => simp [Together, marks]
  | cons g gs ih =>
    have length : (marksOf g).length = g.length := by rw [← List.length_map, map_snd_marksOf]
    have split : (marks (g :: gs)).map Prod.fst = (marksOf g).map Prod.fst ++
        (marks gs).map Prod.fst :=
      List.map_append
    rw [together_cons, split]
    rcases Nat.lt_trichotomy (i + 1) g.length with inside | border | past
    · refine iff_of_true (.inl inside) ?_
      rw [List.getElem?_append_left (by simpa [length] using inside)]
      cases g with
      | nil => cases inside
      | cons n others =>
        rw [map_fst_marksOf, List.getElem?_cons_succ,
          List.getElem?_replicate_of_lt (Nat.lt_of_succ_lt_succ inside)]
    · refine iff_of_false (by omega) ?_
      rw [List.getElem?_append_right (by simp [length, border]), List.length_map, length, border,
        Nat.sub_self, ← List.head?_eq_getElem?, List.head?_map]
      intro unmarked
      obtain ⟨entry, first, same⟩ := Option.map_eq_some_iff.1 unmarked
      exact Bool.false_ne_true (same.symm.trans (startsMarked_marks gs entry first))
    · have index : i + 1 - g.length = i - g.length + 1 := by omega
      rw [List.getElem?_append_right (by simpa [length] using Nat.le_of_lt past),
        List.length_map, length, index, ← ih]
      exact ⟨fun either => (either.resolve_left (by omega)).2, fun later => .inr ⟨by omega, later⟩⟩

/-! The loop -/

theorem startsMarked_marked (escaped : Bool) (nodes : List Node) :
    StartsMarked (marked escaped true nodes) := by
  induction nodes generalizing escaped with
  | nil => simp [StartsMarked, marked]
  | cons n rest ih =>
    rw [marked]
    split
    · exact ih true
    split
    · exact ih escaped
    · simp [StartsMarked]

theorem content_append (first second : List Node) :
    content (first ++ second) = content first ++ content second := List.filter_append ..

theorem content_cons {n : Node} (proper : ¬IsLayout n) (rest : List Node) :
    content (n :: rest) = n :: content rest := by
  simp [content, proper]

theorem content_of_isLayout {gap : List Node} (layout : ∀ n ∈ gap, IsLayout n) :
    content gap = [] := by
  simpa [content] using layout

/-- Between a node of the content and the next one there is only layout. -/
theorem exists_of_content {nodes : List Node} {i : Nat} (inside : i + 1 < (content nodes).length) :
    ∃ before a gap b after, nodes = before ++ a :: (gap ++ b :: after) ∧
    (content before).length = i ∧ ¬IsLayout a ∧ (∀ n ∈ gap, IsLayout n) ∧ ¬IsLayout b := by
  have around := List.take_append_drop i (content nodes)
  rw [List.drop_eq_getElem_cons (Nat.lt_of_succ_lt inside),
    List.drop_eq_getElem_cons inside] at around
  obtain ⟨first, rest, split, front, later⟩ := List.filter_eq_append_iff.1 around.symm
  obtain ⟨lead, rest, rfl, between, proper, later⟩ := List.filter_eq_cons_iff.1 later
  obtain ⟨gap, after, rfl, layout, last, _⟩ := List.filter_eq_cons_iff.1 later
  have none : content lead = [] := content_of_isLayout (by simpa using between)
  refine ⟨first ++ lead, _, gap, _, after, by simpa using split, ?_, by simpa using proper,
    by simpa using layout, by simpa using last⟩
  rw [content_append, none, List.append_nil, content, front, List.length_take]
  omega

/-- As `Continues`, when there may have been a backslash already. -/
def ContinuesFrom (escaped : Bool) (gap : List Node) : Prop :=
  ∀ (before : List Node) (n : Node) (after : List Node), gap = before ++ n :: after →
    n.kind = .whitespace → n.text = "\n" ∧ (escaped ∨ ∃ m ∈ before, m.isBackslash)

theorem continuesFrom_false {gap : List Node} : ContinuesFrom false gap ↔ Continues gap := by
  simp [ContinuesFrom, Continues]

theorem continuesFrom_nil (escaped : Bool) : ContinuesFrom escaped [] := by
  simp [ContinuesFrom]

theorem continuesFrom_cons {escaped : Bool} {n : Node} {gap : List Node} :
    ContinuesFrom escaped (n :: gap) ↔
      (n.kind = .whitespace → escaped ∧ n.text = "\n") ∧
      ContinuesFrom (escaped || n.isBackslash) gap := by
  constructor
  · intro continues
    refine ⟨fun whitespace => by simpa [and_comm] using continues [] n gap rfl whitespace, ?_⟩
    rintro before m after rfl whitespace
    simpa [or_assoc] using continues (n :: before) m after rfl whitespace
  · rintro ⟨first, later⟩ before m after same whitespace
    rcases List.cons_eq_append_iff.1 same with ⟨rfl, here⟩ | ⟨front, rfl, rfl⟩
    · obtain ⟨rfl, rfl⟩ := List.cons.inj here
      simpa [and_comm] using first whitespace
    · simpa [or_assoc] using later front m after rfl whitespace

theorem marked_backslash {n : Node} (backslash : n.isBackslash) (escaped fresh : Bool)
    (rest : List Node) :
    marked escaped fresh (n :: rest) = marked true fresh rest := by
  simp [marked, backslash]

theorem not_isBackslash {n : Node} (whitespace : n.kind = .whitespace) : n.isBackslash = false := by
  simp [Node.isBackslash, whitespace]

theorem marked_whitespace {n : Node} (whitespace : n.kind = .whitespace) (escaped fresh : Bool)
    (rest : List Node) :
    marked escaped fresh (n :: rest) = marked escaped (fresh || !(escaped && n.text == "\n"))
      rest := by
  simp [marked, not_isBackslash whitespace, whitespace]

/-- What the flags say after some layout: the next node starts a group unless all of it continued a
line. -/
theorem marked_gap {gap : List Node} (layout : ∀ n ∈ gap, IsLayout n) (escaped fresh : Bool)
    {b : Node}
    (proper : ¬IsLayout b) (after : List Node) :
    ∃ first, marked escaped fresh (gap ++ b :: after) = (first, b) :: marked false false after ∧
      (first = false ↔ fresh = false ∧ ContinuesFrom escaped gap) := by
  induction gap generalizing escaped fresh with
  | nil => exact ⟨fresh, marked_node proper escaped fresh after, by simp [continuesFrom_nil]⟩
  | cons n gap ih =>
    rw [List.forall_mem_cons] at layout
    rw [List.cons_append, continuesFrom_cons]
    rcases layout.1 with backslash | whitespace
    · obtain ⟨first, same, flags⟩ := ih layout.2 true fresh
      have other : n.kind ≠ .whitespace := by
        intro whitespace
        rw [not_isBackslash whitespace] at backslash
        cases backslash
      refine ⟨first, by rw [marked_backslash backslash, same], ?_⟩
      rw [flags, backslash, Bool.or_true]
      simp [other]
    · obtain ⟨first, same, flags⟩ := ih layout.2 escaped (fresh || !(escaped && n.text == "\n"))
      refine ⟨first, by rw [marked_whitespace whitespace, same], ?_⟩
      rw [flags, not_isBackslash whitespace, Bool.or_false]
      simp [whitespace, and_assoc]

theorem marked_append {a : Node} (proper : ¬IsLayout a) (escaped fresh : Bool)
    (before rest : List Node) :
    ∃ first, marked escaped fresh (before ++ a :: rest) =
      marked escaped fresh before ++ (first, a) :: marked false false rest := by
  induction before generalizing escaped fresh with
  | nil => exact ⟨fresh, marked_node proper escaped fresh rest⟩
  | cons n before ih =>
    rw [List.cons_append, marked, marked]
    split
    · exact ih ..
    split
    · exact ih ..
    · obtain ⟨first, same⟩ := ih false false
      exact ⟨first, by rw [same]; rfl⟩

theorem map_snd_marked (escaped fresh : Bool) (nodes : List Node) :
    (marked escaped fresh nodes).map Prod.snd = content nodes := by
  induction nodes generalizing escaped fresh with
  | nil => rfl
  | cons n rest ih =>
    by_cases layout : IsLayout n
    · have same : content (n :: rest) = content rest := by simp [content, layout]
      rw [same]
      rcases layout with backslash | whitespace
      · rw [marked_backslash backslash, ih]
      · rw [marked_whitespace whitespace, ih]
    · rw [marked_node layout, List.map_cons, ih, content_cons layout]

/-- A node starts a group unless the layout before it continues a line. -/
theorem marked_parted_iff {gap : List Node} {a b : Node} (proper : ¬IsLayout a)
    (layout : ∀ n ∈ gap, IsLayout n) (last : ¬IsLayout b) (before after : List Node) :
    ((marked false true (before ++ a :: (gap ++ b :: after))).map
      Prod.fst)[(content before).length + 1]? =
      some false ↔ Continues gap := by
  obtain ⟨first, same⟩ := marked_append proper false true before (gap ++ b :: after)
  obtain ⟨second, next, flags⟩ := marked_gap layout false false last after
  have length : (content before).length = ((marked false true before).map Prod.fst).length := by
    rw [← map_snd_marked false true before, List.length_map, List.length_map]
  rw [same, next, List.map_append, length, List.getElem?_append_right (Nat.le_add_right _ _),
    Nat.add_sub_cancel_left]
  rw [continuesFrom_false] at flags
  simpa using flags

theorem splits_of_marks {nodes : List Node} {gs : List (List Node)} (proper : ∀ g ∈ gs, g ≠ [])
    (same : marks gs = marked false true nodes) : Splits nodes gs where
  proper := proper
  whole := by rw [← map_snd_marks, same, map_snd_marked]
  parted := by
    rintro before a gap b after rfl first layout last
    rw [together_iff, same]
    exact marked_parted_iff first layout last before after

theorem marks_of_splits {nodes : List Node} {gs : List (List Node)} (splits : Splits nodes gs) :
    marks gs = marked false true nodes := by
  have members : (marks gs).map Prod.snd = (marked false true nodes).map Prod.snd := by
    rw [map_snd_marks, map_snd_marked, splits.whole]
  have length : (marks gs).length = (marked false true nodes).length := by
    simpa using congrArg List.length members
  have flags : (marks gs).map Prod.fst = (marked false true nodes).map Prod.fst := by
    refine List.ext_getElem (by simpa using length) fun i left right => ?_
    cases i with
    | zero =>
      rw [(startsMarked_marks gs).getElem left, (startsMarked_marked false nodes).getElem right]
    | succ i =>
      have two : i + 1 < (content nodes).length := by
        rw [← map_snd_marked false true nodes]
        simpa using right
      obtain ⟨before, a, gap, b, after, rfl, place, first, layout, last⟩ := exists_of_content two
      have parted := splits.parted before a gap b after rfl first layout last
      have loop := marked_parted_iff first layout last before after
      rw [together_iff, ← loop, place, List.getElem?_eq_getElem left,
        List.getElem?_eq_getElem right, Option.some_inj, Option.some_inj] at parted
      exact Bool.eq_iff_iff.2 (by simpa using not_congr parted)
  exact (List.zip_of_prod flags members).trans (List.zip_of_prod rfl rfl).symm

/-- The arguments are a split of the nodes, and the only one. -/
theorem splits_iff_eq_groups {nodes : List Node} {gs : List (List Node)} :
    Splits nodes gs ↔ gs = groups nodes := by
  constructor
  · intro splits
    rw [groups, ← marks_of_splits splits, gather_marks splits.proper]
  · rintro rfl
    obtain ⟨gs, same, proper⟩ := exists_marks (startsMarked_marked false nodes)
    rw [groups, ← same, gather_marks proper]
    exact splits_of_marks proper same

/-- A backslash holds for every newline after it, but neither for blanks nor for what came before
it. -/
example :
    (groups [.leaf .word "a", .leaf .text "\\", .leaf .whitespace "\n", .leaf .whitespace "\n",
    .leaf .word "b", .leaf .text "\\", .leaf .whitespace "\n", .leaf .whitespace "  ",
      .leaf .word "c",
    .leaf .whitespace "\n", .leaf .text "\\", .leaf .word "d"]).map (·.map Node.text) =
      ([["a", "b"], ["c"], ["d"]] : List (List Text)) := by decide

end ShellToDeno.Arguments
