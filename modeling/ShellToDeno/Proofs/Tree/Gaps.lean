import Mathlib.Data.List.Infix
import Mathlib.Data.List.TakeWhile
import ShellToDeno.Proofs.Tree.Built

/-!
# What fills the gaps of a node

A node is built over nodes that were made before it, and what lies between these is cut into leaves.
One walk through a gap says all that is known of its leaves (`gapFrom_leaves`): each shows a stretch
of the source (`IsLeaf`), and they follow each other from the start of the gap. They reach its end
if every here-document body ends after it starts; a body of no bytes would be cut off again and
again. So the children of a node are nodes that were given and leaves (`of_mem_fill?`), and where
they lie is known from where the gaps lie (`fill?_spans`). What holds of leaves and is kept by nodes
over such children holds of whole trees (`Builds.of_leaf`).
-/
namespace ShellToDeno

/-- Nodes that follow each other from one offset up to another. -/
def Node.Abut : Int → Int → List Node → Prop
  | start, stop, [] => start = stop
  | start, stop, n :: rest => n.start = start ∧ Abut n.stop stop rest

theorem Text.length_slice (t : Text) {start stop : Nat} (fits : stop ≤ t.length) :
    (t.slice start stop).length = stop - start := by
  simp only [slice, List.length_take, List.length_drop]
  omega

/-- A name is listed with its kind, or it is the spelling of a token. -/
theorem Kind.ofName_cases (name : Text) :
    (name, Kind.ofName name) ∈ Kind.names ∨ Kind.ofName name = .token name := by
  rw [Kind.ofName]
  cases found : Kind.names.lookup name with
  | none => exact .inr rfl
  | some kind =>
    obtain ⟨before, after, split, _⟩ := List.lookup_eq_some_iff.1 found
    exact .inl (by simp [split])

theorem Kind.of_ofName_eq_token {name spelling : Text} (same : Kind.ofName name = .token spelling) :
    name = spelling := by
  have named : ∀ entry ∈ Kind.names, entry.2.isToken = false := by decide +kernel
  rcases Kind.ofName_cases name with listed | own
  · rw [same] at listed
    cases named _ listed
  · exact Kind.token.inj (own.symm.trans same)

theorem Kind.of_ofName_eq_comment {name : Text} (same : Kind.ofName name = .comment) :
    name = "comment" := by
  have named : ∀ entry ∈ Kind.names, entry.2 = .comment → entry.1 = "comment" := by decide +kernel
  rcases Kind.ofName_cases name with listed | own
  · exact named _ listed same
  · cases own.symm.trans same

namespace Source

open Node

variable {s : Source}

theorem clamp_bounds (s : Source) (start stop : Nat) :
    (s.clamp start stop).1 ≤ (s.clamp start stop).2 ∧ (s.clamp start stop).2 ≤ s.size := by
  simp only [clamp]
  omega

theorem clamp_of_le {start stop : Nat} (ordered : start ≤ stop) (fits : stop ≤ s.size) :
    s.clamp start stop = (start, stop) := by
  simp only [clamp, Prod.mk.injEq]
  omega

theorem leaf_of_le {kind : Kind} {start stop : Nat} (ordered : start ≤ stop)
    (fits : stop ≤ s.size) :
    s.leaf kind start stop = s.node kind start stop [] := by
  simp only [leaf, clamp_of_le ordered fits]

/-! Tokens -/

/-- Every here-document body ends after it starts. -/
def BodiesAdvance (s : Source) : Prop := ∀ body ∈ s.bodies, body.1 < body.2

theorem bodyAt?_lt (advance : s.BodiesAdvance) {offset stop : Nat}
    (found : s.bodyAt? offset = some stop) : offset < stop := by
  obtain ⟨before, after, split, _⟩ := List.lookup_eq_some_iff.1 found
  exact advance (offset, stop) (by simp [split])

theorem operator?_begins {gap operator : Text} (found : operator? gap = some operator) :
    operator <+: gap ∧ 0 < operator.length := by
  unfold operator? at found
  split at found
  · next hit =>
    obtain rfl := Option.some.inj found
    have nonempty : ∀ o ∈ operators, 0 < o.length := by decide +kernel
    have isPrefix := List.find?_some hit
    exact ⟨List.isPrefixOf_iff_prefix.1 isPrefix, nonempty _ (List.mem_of_find?_eq_some hit)⟩
  · split at found
    · split at found
      · obtain rfl := Option.some.inj found
        exact ⟨⟨_, rfl⟩, Nat.zero_lt_one⟩
      · cases found
    · cases found

theorem spaceLength_le (first offset : Nat) (gap : Text) :
    s.spaceLength first offset gap ≤ gap.length := by
  induction gap generalizing offset with
  | nil => simp [spaceLength]
  | cons b rest ih =>
    rw [spaceLength]
    split
    · exact Nat.zero_le _
    · have := ih (offset + 1)
      simp only [List.length_cons]
      omega

theorem spaceLength_pos {offset : Nat} {b : UInt8} {rest : Text} (space : isSpace b = true) :
    0 < s.spaceLength offset offset (b :: rest) := by
  simp [spaceLength, space]

/-- A token does not reach beyond its gap. It is as long as it is spelled, and a comment stays on
its line. -/
structure Fits (gap : Text) (token : Kind × Nat) : Prop where
  short : token.2 ≤ gap.length
  spelled : ∀ spelling, token.1 = .token spelling → gap.take token.2 = spelling
  line : token.1 = .comment → Ascii.newline ∉ gap.take token.2

theorem fits_layout {gap : Text} {kind : Kind} {length : Nat} (short : length ≤ gap.length)
    (layout : kind ∈ [.text, .whitespace, .heredocBody]) : Fits gap (kind, length) := by
  refine ⟨short, fun spelling same => ?_, fun same => ?_⟩
  · rw [show kind = .token spelling from same] at layout
    simp at layout
  · rw [show kind = .comment from same] at layout
    simp at layout

theorem fits_ofName {gap taken : Text} (isPrefix : taken <+: gap) :
    Fits gap (.ofName taken, taken.length) := by
  refine ⟨isPrefix.length_le, fun spelling same => ?_, fun same => ?_⟩
  · rw [← List.prefix_iff_eq_take.1 isPrefix]
    exact Kind.of_ofName_eq_token same
  · rw [← List.prefix_iff_eq_take.1 isPrefix, Kind.of_ofName_eq_comment same]
    decide

theorem fits_comment (gap : Text) :
    Fits gap (.comment, (gap.takeWhile (· != Ascii.newline)).length) := by
  have isPrefix := List.takeWhile_prefix (· != Ascii.newline) (l := gap)
  refine ⟨isPrefix.length_le, fun spelling same => (by cases same), fun _ member => ?_⟩
  rw [← List.prefix_iff_eq_take.1 isPrefix] at member
  simpa using List.mem_takeWhile_imp member

theorem plain_fits (before : Option UInt8) (offset : Nat) (gap : Text) :
    Fits gap (gapToken.plain s before offset gap) ∧
      (gap ≠ [] → 0 < (gapToken.plain s before offset gap).2) := by
  rw [gapToken.plain.eq_def]
  split
  · exact ⟨fits_layout (Nat.zero_le _) (by simp), absurd rfl⟩
  next b rest =>
  split
  · exact ⟨fits_layout (by simp) (by simp), fun _ => Nat.zero_lt_one⟩
  split
  · next space =>
      exact ⟨fits_layout (spaceLength_le _ _ _) (by simp), fun _ => spaceLength_pos space⟩
  next notBackslash notSpace =>
  split
  · have line : b ≠ Ascii.newline := by rintro rfl; exact notSpace (by decide)
    exact ⟨fits_comment _, fun _ => by simp [line]⟩
  split
  · next found =>
      exact ⟨fits_ofName (operator?_begins found).1, fun _ => (operator?_begins found).2⟩
  · next missing =>
    have plainByte : startsOperator b = false := by
      rw [operator?] at missing
      split at missing
      · cases missing
      · simpa using missing
    exact ⟨fits_ofName (List.takeWhile_prefix _), fun _ => by simp_all⟩

theorem gapToken_fits (before : Option UInt8) (offset : Nat) (gap : Text) :
    Fits gap (s.gapToken before offset gap) ∧
      (s.BodiesAdvance → gap ≠ [] → 0 < (s.gapToken before offset gap).2) := by
  obtain ⟨fits, positive⟩ := plain_fits (s := s) before offset gap
  rw [gapToken]
  split
  · next stop found =>
    split
    · refine ⟨fits_layout (by omega) (by simp), fun advance _ => ?_⟩
      exact Nat.sub_pos_of_lt (bodyAt?_lt advance found)
    · exact ⟨fits, fun _ => positive⟩
  · exact ⟨fits, fun _ => positive⟩

/-! Gaps -/

/-- A leaf over a stretch of the source: a token is spelled as its kind says, and a comment stays on
its line. -/
inductive IsLeaf (s : Source) : Node → Prop
  | mk {kind : Kind} {start stop : Nat} (ordered : start ≤ stop) (fits : stop ≤ s.size)
      (spelled : ∀ spelling, kind = .token spelling → s.text.slice start stop = spelling)
      (line : kind = .comment → Ascii.newline ∉ s.text.slice start stop) :
      IsLeaf s (s.node kind start stop [])

/-- The text of a gap at an offset of the source. -/
def Shows (s : Source) (offset : Nat) (gap : Text) : Prop := gap <+: s.text.drop offset

theorem Shows.fits {offset : Nat} {gap : Text} (shows : s.Shows offset gap) (nonempty : gap ≠ []) :
    offset + gap.length ≤ s.size := by
  have short := shows.length_le
  rw [List.length_drop] at short
  have size : s.size = s.text.length := rfl
  have positive := List.length_pos_iff.2 nonempty
  omega

theorem Shows.drop {offset : Nat} {gap : Text} (shows : s.Shows offset gap) (length : Nat) :
    s.Shows (offset + length) (gap.drop length) := by
  rw [Shows, ← List.drop_drop]
  exact List.IsPrefix.drop shows length

theorem Shows.isLeaf {offset : Nat} {gap : Text} (shows : s.Shows offset gap) (nonempty : gap ≠ [])
    {kind : Kind} {length : Nat} (token : Fits gap (kind, length)) :
    s.IsLeaf (s.node kind offset (offset + length) []) := by
  obtain ⟨short, spelled, line⟩ := token
  dsimp only at short spelled line
  have taken : s.text.slice offset (offset + length) = gap.take length := by
    obtain ⟨rest, whole⟩ := shows
    rw [Text.slice, Nat.add_sub_cancel_left, ← whole, List.take_append_of_le_length short]
  have within := shows.fits nonempty
  refine .mk (by omega) (by omega) ?_ ?_
  · rwa [taken]
  · rwa [taken]

/-- The leaves of a gap follow each other from its start on. They reach its end if every token takes
something of it. -/
theorem gapFrom_leaves (fuel : Nat) (before : Option UInt8) (offset : Nat) (gap : Text)
    (shows : s.Shows offset gap) :
    (∃ length ≤ gap.length, Abut ↑offset ↑(offset + length) (s.gapFrom fuel before offset gap) ∧
      (s.BodiesAdvance → gap.length ≤ fuel → length = gap.length)) ∧
    ∀ c ∈ s.gapFrom fuel before offset gap, s.IsLeaf c := by
  induction fuel generalizing before offset gap with
  | zero => exact ⟨⟨0, Nat.zero_le _, rfl, fun _ enough => by omega⟩, List.forall_mem_nil _⟩
  | succ fuel ih =>
    by_cases empty : gap = []
    · subst empty
      exact ⟨⟨0, Nat.le_refl _, rfl, fun _ _ => rfl⟩, List.forall_mem_nil _⟩
    obtain ⟨token, positive⟩ := gapToken_fits (s := s) before offset gap
    have fits := shows.fits empty
    rw [gapFrom.eq_3 _ _ _ _ _ empty]
    generalize s.gapToken before offset gap = found at token positive
    obtain ⟨kind, length⟩ := found
    have short : length ≤ gap.length := token.short
    have rest : (gap.drop length).length = gap.length - length := List.length_drop
    have first := shows.isLeaf empty token
    dsimp only at positive ⊢
    rw [leaf_of_le (by omega) (by omega)]
    split
    · next tail backslash newline =>
      have one := congrArg List.length backslash
      rw [List.length_take, Nat.min_eq_left short, List.length_singleton] at one
      subst one
      have after := congrArg List.length newline
      rw [rest, List.length_cons] at after
      have later := shows.drop 1
      rw [newline] at later
      obtain ⟨⟨reached, most, abut, whole⟩, leaves⟩ :=
        ih (some Ascii.newline) (offset + 2) tail (later.drop 1)
      have line : Fits (Ascii.newline :: tail) (.whitespace, 1) := fits_layout (by simp) (by simp)
      have second := later.isLeaf (List.cons_ne_nil _ _) line
      rw [leaf_of_le (by omega) (by omega)]
      refine ⟨⟨reached + 2, by omega, ⟨rfl, rfl, ?_⟩, fun advance enough => ?_⟩,
        List.forall_mem_cons.2 ⟨first, List.forall_mem_cons.2 ⟨second, leaves⟩⟩⟩
      · rwa [show offset + (reached + 2) = offset + 2 + reached by omega]
      · have := whole advance (by omega)
        omega
    · obtain ⟨⟨reached, most, abut, whole⟩, leaves⟩ :=
        ih (gap.take length).getLast? (offset + length) (gap.drop length) (shows.drop length)
      refine ⟨⟨length + reached, by omega, ⟨rfl, ?_⟩, fun advance enough => ?_⟩,
        List.forall_mem_cons.2 ⟨first, leaves⟩⟩
      · rwa [← Nat.add_assoc]
      · have taken := positive advance empty
        have := whole advance (by omega)
        omega

theorem gap_leaves (s : Source) (start stop : Nat) : ∀ c ∈ s.gap start stop, s.IsLeaf c :=
  (gapFrom_leaves _ _ start _ (List.take_prefix _ _)).2

theorem gap_abut {start stop : Nat} (ordered : start ≤ stop) (fits : stop ≤ s.size) :
    ∃ reached ≤ stop, Abut start reached (s.gap start stop) ∧
    (s.BodiesAdvance → reached = stop) := by
  have size : (s.text.slice start stop).length = stop - start := Text.length_slice _ fits
  have shows : s.Shows start (s.text.slice start stop) := List.take_prefix _ _
  obtain ⟨length, most, abut, whole⟩ := (gapFrom_leaves (stop - start)
    (if start == 0 then none else s.text[start - 1]?) start _ shows).1
  refine ⟨start + length, by omega, abut, fun advance => ?_⟩
  have := whole advance (by omega)
  omega

/-! Nodes with the gaps between them -/

/-- The children of a node were given or are leaves. -/
theorem of_mem_fill? {stop offset : Nat} {nodes children : List Node}
    (filled : s.fill? stop offset nodes = some children) {c : Node} (member : c ∈ children) :
    c ∈ nodes ∨ s.IsLeaf c := by
  induction nodes generalizing offset children with
  | nil =>
    obtain rfl := Option.some.inj filled
    exact .inr (s.gap_leaves _ _ c member)
  | cons n rest ih =>
    rw [fill?] at filled
    split at filled
    · cases filled
    obtain ⟨after, found, rfl⟩ := Option.map_eq_some_iff.1 filled
    rcases List.mem_append.1 member with member | member
    · exact .inr (s.gap_leaves _ _ c member)
    rcases List.mem_cons.1 member with rfl | member
    · exact .inl List.mem_cons_self
    · exact (ih found member).imp_left (List.mem_cons_of_mem n)

/-- How the children of a node lie, if it is known how gaps lie and how nodes stand between them. -/
theorem fill?_spans {R : Int → Int → List Node → Prop}
    (gap : ∀ {start stop : Nat}, start ≤ stop → stop ≤ s.size → R start stop (s.gap start stop))
    (between : ∀ {start stop front n back}, n.start ≤ n.stop → R start n.start front →
      R n.stop stop back → R start stop (front ++ n :: back))
    {stop : Nat} (fits : stop ≤ s.size) {nodes children : List Node}
    (bounds : ∀ n ∈ nodes, 0 ≤ n.start ∧ n.start ≤ n.stop) {offset : Nat} (ordered : offset ≤ stop)
    (filled : s.fill? stop offset nodes = some children) : R offset stop children := by
  induction nodes generalizing offset children with
  | nil =>
    obtain rfl := Option.some.inj filled
    exact gap ordered fits
  | cons n rest ih =>
    rw [List.forall_mem_cons] at bounds
    rw [fill?] at filled
    split at filled
    · cases filled
    next inside =>
    have places : (offset : Int) ≤ n.start ∧ n.stop ≤ stop := by
      simpa [not_or] using inside
    obtain ⟨after, found, rfl⟩ := Option.map_eq_some_iff.1 filled
    have first : ((n.start.toNat : Nat) : Int) = n.start := by omega
    have last : ((n.stop.toNat : Nat) : Int) = n.stop := by omega
    have before : R offset n.start.toNat (s.gap offset n.start.toNat) := gap (by omega) (by omega)
    have behind : R n.stop.toNat stop after := ih bounds.2 (by omega) found
    rw [first] at before
    rw [last] at behind
    exact between bounds.1.2 before behind

theorem isLeaf_leaf {kind : Kind} (start stop : Nat) (grammar : kind.isGrammar) :
    s.IsLeaf (s.leaf kind start stop) := by
  obtain ⟨ordered, fits⟩ := s.clamp_bounds start stop
  refine .mk ordered fits ?_ ?_
  · rintro spelling rfl
    cases grammar
  · rintro rfl
    cases grammar

/-- Whatever holds of leaves, and of nodes whose children fill a stretch of the source, is kept by
building. -/
theorem Builds.of_leaf {P : Node → Prop} (leaf : ∀ {c}, s.IsLeaf c → P c)
    (node : ∀ {kind} {start stop : Nat} {nodes children}, kind.isGrammar → start ≤ stop →
      stop ≤ s.size →
      (∀ c ∈ nodes, P c) → s.fill? stop start nodes = some children → (∀ c ∈ children, P c) →
      P (s.node kind start stop children)) : s.Builds P := by
  refine ⟨fun start stop grammar => leaf (isLeaf_leaf start stop grammar), ?_⟩
  intro kind start stop inside grammar known
  obtain ⟨ordered, fits⟩ := s.clamp_bounds start stop
  rw [Source.build]
  generalize s.clamp start stop = stretch at ordered fits
  obtain ⟨start, stop⟩ := stretch
  dsimp only at ordered fits ⊢
  split
  · next children filled =>
    have given : ∀ c ∈ inOrder inside, P c := fun c member => known c (mem_inOrder member)
    refine node grammar ordered fits given filled fun c member => ?_
    exact (of_mem_fill? filled member).elim (given c) leaf
  · exact leaf (isLeaf_leaf start stop grammar)

end Source

end ShellToDeno
