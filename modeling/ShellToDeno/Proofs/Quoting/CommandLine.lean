import ShellToDeno.Proofs.Quoting.Literals
import ShellToDeno.Compile.Call

/-!
# Arguments of a command string

A command whose name and arguments are literals becomes one command string. Read as a template and
split into words it gives back the name and the arguments (`Call.commandLine_words`): each argument
stays one argument and keeps its value.
-/
namespace ShellToDeno

/-- A literal node that can stand as an argument, with its value. -/
structure Node.Argument (n : Node) (value : Text) : Prop where
  argument : n.IsArgument
  means : n.Means value

theorem Node.Means.kind {n : Node} {value : Text} (means : n.Means value) :
    n.isBackslash = false ∧ n.kind ≠ .whitespace ∧ n.kind ≠ .concatenation := by
  cases means <;> simp_all [Node.isBackslash]

namespace Arguments

/-- White space and line continuations. -/
def IsLayout (n : Node) : Prop := n.isBackslash ∨ n.kind = .whitespace

/-- White space that parts arguments wherever it stands. -/
def IsGap (n : Node) : Prop := n.kind = .whitespace ∧ n.text ≠ "\n"

/-- Some nodes, each set apart from what stands before it by layout with a gap in it. -/
inductive Parted : List Node → List Node → Prop where
  | none {rest : List Node} (layout : ∀ n ∈ rest, IsLayout n) : Parted rest []
  | next {before rest arguments : List Node} {n : Node} (layout : ∀ n ∈ before, IsLayout n)
    (gap : ∃ n ∈ before, IsGap n) (later : Parted rest arguments) :
    Parted (before ++ n :: rest) (n :: arguments)

/-- Layout is passed over, and a gap in it makes what follows an argument of its own. -/
theorem marked_layout {before : List Node} (layout : ∀ n ∈ before, IsLayout n) (rest : List Node)
    (escaped fresh : Bool) :
    ∃ escaped' fresh', marked escaped fresh (before ++ rest) = marked escaped' fresh' rest ∧
      (fresh = true ∨ (∃ n ∈ before, IsGap n) → fresh' = true) := by
  induction before generalizing escaped fresh with
  | nil => exact ⟨escaped, fresh, rfl, by simp⟩
  | cons n before ih =>
    have later := ih fun m inside => layout m (by simp [inside])
    by_cases backslash : n.isBackslash
    · obtain ⟨escaped', fresh', same, parts⟩ := later true fresh
      refine ⟨escaped', fresh', ?_, ?_⟩
      · simpa [marked, backslash] using same
      · have blank : n.kind ≠ .whitespace := by
          intro whitespace
          simp [Node.isBackslash, whitespace] at backslash
        rintro (already | ⟨m, inside, gap⟩)
        · exact parts (.inl already)
        · rcases List.mem_cons.1 inside with rfl | inside
          · exact absurd gap.1 blank
          · exact parts (.inr ⟨m, inside, gap⟩)
    · have whitespace : n.kind = .whitespace := (layout n (by simp)).resolve_left backslash
      obtain ⟨escaped', fresh', same, parts⟩ :=
        later escaped (fresh || !(escaped && n.text == "\n"))
      refine ⟨escaped', fresh', ?_, ?_⟩
      · simpa [marked, backslash, whitespace] using same
      · rintro (already | ⟨m, inside, gap⟩)
        · exact parts (.inl (by simp [already]))
        · rcases List.mem_cons.1 inside with rfl | inside
          · exact parts (.inl (by simp [gap.2]))
          · exact parts (.inr ⟨m, inside, gap⟩)

theorem marked_node {n : Node} (proper : ¬IsLayout n) (escaped fresh : Bool) (rest : List Node) :
    marked escaped fresh (n :: rest) = (fresh, n) :: marked false false rest := by
  rw [IsLayout, not_or] at proper
  simp [marked, proper.1, proper.2]

theorem marked_parted {nodes arguments : List Node} (parted : Parted nodes arguments)
    (proper : ∀ n ∈ arguments, ¬IsLayout n) :
    marked false false nodes = arguments.map (true, ·) := by
  induction parted with
  | @none rest layout =>
    obtain ⟨_, _, same, _⟩ := marked_layout layout [] false false
    simpa [marked] using same
  | @next before rest arguments n layout gap _ ih =>
    obtain ⟨escaped, fresh, same, parts⟩ := marked_layout layout (n :: rest) false false
    rw [same, marked_node (proper n (by simp)), parts (.inr gap),
      ih fun m inside => proper m (by simp [inside])]
    rfl

theorem gather_fresh (first : Bool × Node) (nodes : List Node) :
    gather (first :: nodes.map (true, ·)) = [first.2] :: nodes.map ([·]) := by
  induction nodes generalizing first with
  | nil => rfl
  | cons n nodes ih =>
    rw [gather]
    · rw [List.map_cons, ih]
      rfl
    · simp

/-- Each of the parted nodes is an argument of its own. -/
theorem groups_parted {n : Node} {nodes arguments : List Node} (parted : Parted nodes arguments)
    (proper : ∀ m ∈ n :: arguments, ¬IsLayout m) :
    groups (n :: nodes) = (n :: arguments).map ([·]) := by
  rw [groups, marked_node (proper n (by simp)),
    marked_parted parted fun m inside => proper m (by simp [inside]), gather_fresh]
  rfl

theorem not_isLayout {arguments : List Node} {values : List Text}
    (means : List.Forall₂ Node.Argument arguments values) : ∀ n ∈ arguments, ¬IsLayout n := by
  induction means with
  | nil => simp
  | cons first _ ih =>
    intro n inside
    rcases List.mem_cons.1 inside with rfl | inside
    · simp [IsLayout, first.means.kind]
    · exact ih n inside

/-! Converting a literal does nothing but make its fragment. -/

theorem openAll_single {n : Node} (kind : n.kind ≠ .concatenation) : openAll [n] = [n] := by
  obtain ⟨kind', text, children, indent, start, stop⟩ := n
  cases kind' <;> first | rfl | exact absurd rfl kind

theorem run_values? {s : CompileState} {id : FragmentId} {f : Fragment}
    (present : s.fragments[id]? = some f) : Compile.run s (Compile.values? id) =
    (.ok f.values, s) := by
  rw [Compile.values?, Compile.run_bind_ok (Compile.run_fragment_some present), Compile.run_pure]

/-- A node that does not multiply is one argument. -/
theorem run_convert_of_compile {c : Compiler} {context : Context} {n : Node} {s t : CompileState}
    {id : FragmentId} {f : Fragment} (kind : n.kind ≠ .concatenation)
    (compiled : Compile.run s (c.compile n context) = (.ok id, t))
      (present : t.fragments[id]? = some f)
    (single : f.values = none) : Compile.run s (convert c context [n]) = (.ok [id], t) := by
  have parts : Compile.run s ([n].mapM fun n => c.compile n context) = (.ok [id], t) := by
    rw [List.mapM_cons, Compile.run_bind_ok compiled]
    rfl
  rw [convert, openAll_single kind, Compile.run_bind_ok parts, expand, expandFrom, Compile.run_bind,
    Compile.run_bind_ok (run_values? present), single]
  rfl

theorem run_convert {c : Compiler} {context : Context} {n : Node} {fields : Fields}
    (kind : n.kind ≠ .concatenation) (makes : Makes (c.compile n context) fields)
    (s : CompileState) :
    Compile.run s (convert c context [n]) = (.ok [s.fragments.size],
      s.push (.ofFields fields)) := by
  have present : (s.push (.ofFields fields)).fragments[s.fragments.size]? =
      some (.ofFields fields) := by simp [CompileState.push]
  exact run_convert_of_compile kind (makes s) present rfl

end Arguments

namespace CompileState
variable {s t : CompileState} {id : FragmentId} {value : Text}

/-- A literal that has not been quoted yet, and stands for its value if it is bare. -/
def Quotable (s : CompileState) (id : FragmentId) (value : Text) : Prop :=
  ∃ fields, fields.Literal value ∧
    (∀ text, fields.text? .argument = some text → Dax.Quotes text value) ∧
    s.Holds id fields ∧ s.slot? id .singleQuoted = none

theorem Quotable.of_eq (quotable : s.Quotable id value)
    (same : t.fragments[id]? = s.fragments[id]?) : t.Quotable id value := by
  obtain ⟨fields, literal, quotes, ⟨f, present, inner⟩, unread⟩ := quotable
  refine ⟨fields, literal, quotes, ⟨f, same.trans present, inner⟩, ?_⟩
  simpa [slot?, same] using unread

theorem Quotable.inside (quotable : s.Quotable id value) : id < s.fragments.size := by
  obtain ⟨_, _, _, ⟨f, present, _⟩, _⟩ := quotable
  exact (Array.getElem?_eq_some_iff.1 present).1

theorem Quotable.push (quotable : s.Quotable id value) (f : Fragment) :
    (s.push f).Quotable id value := by
  refine quotable.of_eq ?_
  simp [CompileState.push, Array.getElem?_push, Nat.ne_of_lt quotable.inside]

theorem Touches.quotable {j : FragmentId} (touches : Touches j s t) (other : id ≠ j)
    (quotable : s.Quotable id value) : t.Quotable id value :=
  quotable.of_eq (touches.frame id other)

end CompileState

namespace Arguments
open CompileState
variable (registry : Registry) (fuel : Nat)

/-- Converting a literal node makes one argument, which can be quoted. -/
def Converts (f : List Node → Compile (List FragmentId)) (n : Node) (value : Text) : Prop :=
  ∀ s : CompileState, ∃ g, Compile.run s (f [n]) = (.ok [s.fragments.size], s.push g) ∧
    (s.push g).Quotable s.fragments.size value

theorem Converts.of_makes {c : Compiler} {context : Context} {n : Node} {fields : Fields}
    {value : Text} (kind : n.kind ≠ .concatenation) (literal : fields.Literal value)
    (makes : Makes (c.compile n context) fields)
    (quotes : ∀ text, fields.text? .argument = some text → Dax.Quotes text value) :
    Converts (convert c context) n value := by
  intro s
  refine ⟨.ofFields fields, run_convert kind makes s, fields, literal, quotes,
    holds_push fields, ?_⟩
  rw [slot?_push rfl]
  simp [slot?]

theorem run_convertAll {f : List Node → Compile (List FragmentId)} {nodes : List Node}
    {values : List Text} (each : List.Forall₂ (Converts f) nodes values) (s : CompileState) :
    ∃ ids t, Compile.run s ((nodes.map ([·])).flatMapM f) = (.ok ids, t) ∧
      List.Forall₂ t.Quotable ids values ∧ ids.Nodup ∧ (∀ id ∈ ids, s.fragments.size ≤ id) ∧
      ∀ j, j < s.fragments.size → t.fragments[j]? = s.fragments[j]? := by
  induction each generalizing s with
  | nil => exact ⟨[], s, rfl, .nil, .nil, by simp, fun _ _ => rfl⟩
  | @cons n value nodes values first _ ih =>
    obtain ⟨g, made, quotable⟩ := first s
    obtain ⟨ids, t, later, all, distinct, above, frame⟩ := ih (s.push g)
    have size : (s.push g).fragments.size = s.fragments.size + 1 := by simp [push]
    rw [size] at above frame
    refine ⟨s.fragments.size :: ids, t, ?_, .cons ?_ all, ?_, ?_, ?_⟩
    · rw [List.map_cons, List.flatMapM_cons, Compile.run_bind_ok made, Compile.run_bind_ok later]
      rfl
    · exact quotable.of_eq (frame _ (by omega))
    · refine List.nodup_cons.2 ⟨fun inside => ?_, distinct⟩
      have := above _ inside
      omega
    · intro id inside
      rcases List.mem_cons.1 inside with rfl | inside
      · exact Nat.le_refl _
      · have := above id inside
        omega
    · intro j below
      rw [frame j (by omega)]
      simp [push, Array.getElem?_push, Nat.ne_of_lt below]

/-- A literal that was not quoted yet is quoted when this form is read. -/
theorem run_singleQuoted {s : CompileState} {id : FragmentId} {fields : Fields} {value : Text}
    (literal : fields.Literal value) (holds : s.Holds id fields)
    (unread : s.slot? id .singleQuoted = none) :
    ∃ t, Compile.run s ((Compiler.ofFuel registry (fuel + 2)).read id .singleQuoted) =
      (.ok (some ("'" ++ Dax.singleQuoteInnards (Js.templateInnards value) ++ "'")), t) ∧
      Touches id s t := by
  have held := holds
  obtain ⟨f, present, inner⟩ := held
  have underived : ¬fields.Direct .singleQuoted := by
    rintro (same | supplied)
    · cases same
    · simp [literal.unquoted] at supplied
  have marked : (s.setSlot id .singleQuoted .cooking).Holds id fields :=
    holds.setSlot fun direct => absurd direct underived
  obtain ⟨t, read, ⟨g, kept, _⟩, touched, _⟩ := marked.run_read literal.texts
    (.inr (by simp [literal.quoted]) : fields.Direct .quotedInnards) registry fuel
  refine ⟨t.setSlot id .singleQuoted
    (.known (some ("'" ++ Dax.singleQuoteInnards (Js.templateInnards value) ++ "'"))), ?_,
    ((touches_setSlot _).trans touched).trans (touches_setSlot _)⟩
  have quoted : Compile.run (s.setSlot id .singleQuoted .cooking)
      (Fragment.making (.ofFuel registry (fuel + 1)) id f .singleQuoted) =
      (.ok (some ("'" ++ Dax.singleQuoteInnards (Js.templateInnards value) ++ "'")), t) := by
    rw [Fragment.making, inner.supplied, literal.texts.look, literal.unquoted]
    simp only [Option.map_none, Fragment.derive, Fragment.via]
    rw [Compile.run_bind_ok read, literal.quoted]
    rfl
  refine (Fragment.run_read_new present unread).trans ?_
  rw [Fragment.run_make present, quoted]
  simp [kept]

/-- An argument that can be quoted is quoted, and nothing else is touched. -/
theorem run_argument {s : CompileState} {id : FragmentId} {value : Text}
    (quotable : s.Quotable id value) :
    ∃ piece t, Compile.run s (argument (.ofFuel registry (fuel + 2)) id) = (.ok (some piece), t) ∧
      Dax.Quotes piece value ∧ Touches id s t := by
  obtain ⟨fields, literal, quotes, holds, unread⟩ := quotable
  obtain ⟨t, bare, kept, touched, others⟩ :=
    holds.run_read literal.texts (.inl rfl : fields.Direct .argument) registry (fuel + 1)
  cases found : fields.text? .argument with
  | some text =>
    refine ⟨text, t, ?_, quotes text found, touched⟩
    rw [argument, Compile.run_bind, Compiler.readFirst, Compile.run_bind_ok bare, found]
    rfl
  | none =>
    obtain ⟨u, quoted, more⟩ := run_singleQuoted registry fuel literal kept
      ((others _ (by decide)).trans unread)
    refine ⟨_, u, ?_, .singleQuoted value, touched.trans more⟩
    rw [argument, Compile.run_bind, Compiler.readFirst, Compile.run_bind_ok bare, found]
    simp only [Compiler.readFirst, Compile.run_bind_ok quoted, Compile.run_pure]

/-- Distinct arguments are quoted one after the other. -/
theorem run_arguments {ids : List FragmentId} {values : List Text} {s : CompileState}
    (quotable : List.Forall₂ s.Quotable ids values) (distinct : ids.Nodup) :
    ∃ pieces t, Compile.run s
        (Fragment.joinPieces (argument (.ofFuel registry (fuel + 2))) ids) =
      (.ok (some pieces), t) ∧ List.Forall₂ Dax.Quotes pieces values ∧
      t.fragments.size = s.fragments.size := by
  induction ids generalizing s values with
  | nil =>
    cases quotable
    exact ⟨[], s, rfl, .nil, rfl⟩
  | cons id ids ih =>
    cases quotable with
    | @cons _ value _ values first later =>
      obtain ⟨absent, distinct⟩ := List.nodup_cons.1 distinct
      obtain ⟨piece, t, read, quotes, touched⟩ := run_argument registry fuel first
      have kept : List.Forall₂ t.Quotable ids values := by
        rw [List.forall₂_iff_zip] at later ⊢
        refine ⟨later.1, fun inside => touched.quotable ?_ (later.2 inside)⟩
        rintro rfl
        exact absent (List.of_mem_zip inside).1
      obtain ⟨pieces, u, rest, all, size⟩ := ih kept distinct
      refine ⟨piece :: pieces, u, ?_, .cons quotes all, size.trans touched.size⟩
      rw [Fragment.joinPieces, Compile.run_bind_ok read, Compile.run_bind_ok rest]
      rfl

/-- A line of arguments. -/
def line (c : Compiler) (ids : List FragmentId) : Compile (Option Text) :=
  Option.map (Text.join " ") <$> Fragment.joinPieces (argument c) ids

theorem cook_argumentsOf (c : Compiler) (ids : List FragmentId) :
    Fragment.cook c (.argumentsOf ids) = line c ids := by
  rw [line, map_eq_pure_bind]
  rfl

theorem cook_argumentOf (c : Compiler) (id : FragmentId) :
    Fragment.cook c (.argumentOf id) = line c [id] := by
  have alone : line c [id] = argument c id >>= fun text => pure text := by
    simp only [line, Fragment.joinPieces, map_bind]
    refine bind_congr fun text => ?_
    cases text <;> simp [Text.join]
  rw [alone, bind_pure]
  rfl

/-- A fragment that makes a line of arguments that can be quoted. -/
theorem run_read_line {s : CompileState} {ids : List FragmentId} {values : List Text}
    (quotable : List.Forall₂ s.Quotable ids values) (distinct : ids.Nodup) {fields : Fields}
    {recipe : Recipe} (supplied : fields.look .argumentList = some recipe)
    (cooks : Fragment.cook (.ofFuel registry (fuel + 2)) recipe =
      line (.ofFuel registry (fuel + 2)) ids) :
    ∃ pieces t, Compile.run (s.push (.ofFields fields))
        ((Compiler.ofFuel registry (fuel + 3)).read s.fragments.size .argumentList) =
      (.ok (some (Text.join " " pieces)), t) ∧ List.Forall₂ Dax.Quotes pieces values := by
  have marked : List.Forall₂ ((s.push (.ofFields fields)).setSlot s.fragments.size .argumentList
      .cooking).Quotable ids values :=
    quotable.imp fun id value quotable =>
      (touches_setSlot _).quotable (Nat.ne_of_lt quotable.inside) (quotable.push _)
  obtain ⟨pieces, t, run, quotes, size⟩ := run_arguments registry fuel marked distinct
  refine ⟨pieces, _, run_read_push supplied (t := t) ?_ ?_, quotes⟩
  · rw [cooks, line, Compile.run_map, run]
    rfl
  · rw [size, size_setSlot]
    simp [push]

theorem run_filter_supplies {s : CompileState} {id : FragmentId} (inside : id < s.fragments.size)
    (forms : List Form) :
    ∃ found, Compile.run s (forms.filterM fun form => Compile.supplies id form) =
      (.ok found, s) := by
  have present := Array.getElem?_eq_getElem inside
  have loop (done : List Form) : ∃ found, Compile.run s
      (List.filterAuxM (fun form => Compile.supplies id form) forms done) = (.ok found, s) := by
    induction forms generalizing done with
    | nil => exact ⟨done, rfl⟩
    | cons form forms ih =>
      rw [List.filterAuxM, Compile.run_bind_ok (Compile.run_supplies present form)]
      exact ih _
  obtain ⟨found, run⟩ := loop []
  refine ⟨found.reverse, ?_⟩
  rw [List.filterM, Compile.run_bind_ok run]
  rfl

/-- Taking a look at the value of a literal does not quote it. -/
theorem run_has_value {s : CompileState} {id : FragmentId} {value : Text}
    (quotable : s.Quotable id value) :
    ∃ t, Compile.run s ((Compiler.ofFuel registry (fuel + 1)).has id .value) = (.ok true, t) ∧
      t.Quotable id value := by
  obtain ⟨fields, literal, quotes, holds, unread⟩ := quotable
  obtain ⟨t, read, kept, _, others⟩ :=
    holds.run_read literal.texts (.inr literal.value : fields.Direct .value) registry fuel
  refine ⟨t, ?_, fields, literal, quotes, kept, (others _ (by decide)).trans unread⟩
  rw [Compiler.has, Compile.run_bind_ok read, Compile.run_pure, literal.value]

/-- Unifying literals makes a fragment for their line. -/
theorem run_unify {nodes : List Node} {values : List Text} {context : Context}
    {s t : CompileState} {ids : List FragmentId}
    (converted : Compile.run s (convertAll (.ofFuel registry (fuel + 1)) context nodes) =
      (.ok ids, t))
    (quotable : List.Forall₂ t.Quotable ids values) :
    ∃ (fields : Fields) (recipe : Recipe) (u : CompileState),
      Compile.run s (unify (.ofFuel registry (fuel + 1)) context nodes) =
        (.ok u.fragments.size, u.push (.ofFields fields)) ∧
      List.Forall₂ u.Quotable ids values ∧ fields.look .argumentList = some recipe ∧
      ∀ c, Fragment.cook c recipe = line c ids := by
  rw [unify, Compile.run_bind_ok converted]
  split
  · next only =>
    cases quotable with
    | @cons _ value _ _ first rest =>
      cases rest
      obtain ⟨forms, filtered⟩ := run_filter_supplies first.inside Form.all
      obtain ⟨u, has, kept⟩ := run_has_value registry fuel first
      refine ⟨(.argumentList, .argumentOf only) :: [(.array, .bracketed only)] ++
        forms.map fun form => (form, .same only form), .argumentOf only, u, ?_,
        .cons kept .nil, rfl,
        fun c => cook_argumentOf c only⟩
      rw [Compile.run_bind_ok filtered, Compile.run_bind_ok has]
      rfl
  · exact ⟨_, .argumentsOf ids, t, rfl, quotable, rfl, fun c => cook_argumentsOf c ids⟩

end Arguments

namespace Call
open Arguments CompileState

/-- The assignments in front of a command. -/
def assigned (n : Node) : List Node :=
  (n.children.takeWhile fun child => child.kind != .commandName).filter fun child =>
    child.kind == .variableAssignment

/-- Assignments as they are written, a blank after each. -/
def written (assignments : List Node) : Text := assignments.flatMap fun a => a.text ++ " "

theorem ofNode?_eq_some {context : Context} {n : Node} {call : Call}
    (found : ofNode? context n = some call) :
    call.nameNode.kind = .commandName ∧ call.context = context ∧
      Js.Shows call.assignments (written (assigned n)) := by
  have shows (nodes : List Node) :
      Js.Shows (nodes.flatMap fun a => Js.templateInnards a.text ++ " ") (written nodes) := by
    induction nodes with
    | nil => exact .nil
    | cons n nodes ih =>
      have first : Js.Shows (Js.templateInnards n.text ++ " ") (n.text ++ " ") := by
        intro rest
        have blank : Js.Shows " " " " := .plain rfl
        have apart : ¬Js.Meet n.text (" " ++ rest) := by
          rintro ⟨_, next⟩
          exact absurd (Option.some.inj next) (by decide)
        rw [List.append_assoc, Js.templateValue_innards_append apart, blank, Js.map_append_map]
      exact first.append ih
  rw [ofNode?] at found
  split at found
  · cases found
  · next nameNode arguments rest =>
    cases found
    refine ⟨?_, rfl, shows _⟩
    have dropped := calc
      n.children.dropWhile (fun child => child.kind != .commandName)
        = (n.children.takeWhile (fun child => child.kind != .commandName) ++
            n.children.dropWhile (fun child => child.kind != .commandName)).drop
              (n.children.takeWhile fun child => child.kind != .commandName).length :=
          (List.drop_left ..).symm
      _ = nameNode :: arguments := by rw [List.takeWhile_append_dropWhile, rest]
    have first := List.head?_dropWhile_not (fun child : Node => child.kind != .commandName)
      n.children
    simpa [dropped] using first

/-- The name of a command is compiled as the node that spells it. -/
theorem makes_name {n name : Node} {value : Text} (kind : n.kind = .commandName)
    (only : n.significant = [name]) (argument : name.Argument value) (registry : Registry)
    (fuel : Nat) (context : Context) :
    ∃ fields, fields.Literal value ∧
      Makes ((Compiler.ofFuel registry (fuel + 2)).compile n context) fields ∧
      ∀ text, fields.text? .argument = some text → Dax.Quotes text value := by
  obtain ⟨fields, literal, makes, quotes⟩ := argument.means.makes registry fuel context
  refine ⟨fields, literal, .node ?_, quotes argument.argument⟩
  rw [Compile.branch, kind]
  simpa only [Compile.commandName, only] using makes

/-- A command whose name and arguments are literals has a command string. Read as a template and
then split into words, it is the name and the arguments, after the assignments in front of the
command. -/
theorem commandLine_words (registry : Registry) {fuel : Nat} (enough : 3 ≤ fuel) (s : CompileState)
    {context : Context} {n : Node} {call : Call} (found : ofNode? context n = some call)
    {name : Node} {command : Text} (named : call.nameNode.significant = [name])
    (spelled : name.Argument command) {arguments : List Node} {values : List Text}
    (parted : Parted call.arguments arguments)
    (means : List.Forall₂ Node.Argument arguments values) :
    ∃ text t line, Compile.run s (Fragment.commandLine (.ofFuel registry fuel) call) =
        (.ok (some text), t) ∧
      Js.templateValue text = .ok (written (assigned n) ++ line) ∧
      Shell.words? line = some (command :: values) := by
  obtain ⟨fuel, rfl⟩ : ∃ less, fuel = less + 3 := ⟨fuel - 3, by omega⟩
  obtain ⟨kind, _, assignments⟩ := ofNode?_eq_some found
  have each : List.Forall₂ (Converts (convert (.ofFuel registry (fuel + 3)) call.context))
      (call.nameNode :: arguments) (command :: values) := by
    refine .cons ?_ (means.imp fun n value argument => ?_)
    · obtain ⟨fields, literal, makes, quotes⟩ :=
        makes_name kind named spelled registry (fuel + 1) call.context
      exact .of_makes (by simp [kind]) literal makes quotes
    · obtain ⟨fields, literal, makes, quotes⟩ :=
        argument.means.makes registry (fuel + 2) call.context
      exact .of_makes argument.means.kind.2.2 literal makes (quotes argument.argument)
  have proper : ∀ m ∈ call.nameNode :: arguments, ¬IsLayout m := by
    intro m inside
    rcases List.mem_cons.1 inside with rfl | inside
    · simp [IsLayout, Node.isBackslash, kind]
    · exact not_isLayout means m inside
  obtain ⟨ids, t, converted, quotable, distinct, _⟩ := run_convertAll each s
  rw [← groups_parted parted proper] at converted
  obtain ⟨fields, recipe, u, unified, ready, supplied, cooks⟩ :=
    run_unify registry (fuel + 2) converted quotable
  obtain ⟨pieces, v, read, quotes⟩ :=
    run_read_line registry fuel ready distinct supplied (cooks _)
  obtain ⟨shown, shows, spells⟩ := Dax.Quotes.shown quotes
  refine ⟨call.assignments ++ Text.join " " pieces, v, Text.join " " shown, ?_, ?_, ?_⟩
  · rw [Fragment.commandLine, Compile.run_bind_ok unified, Compile.run_bind_ok read]
    rfl
  · exact (assignments.append (.join shows)).templateValue
  · exact Shell.words?_join spells

/-- The nodes after the name in the tree below: an empty string, a continued line, an apostrophe, a
number and an escaped expansion. -/
def quotedArguments : List Node :=
  [.leaf .whitespace " "] ++ .leaf .rawString "''" ::
    ([.leaf .whitespace " ", .leaf .text "\\", .leaf .whitespace "\n"] ++
      .leaf .ansiString "$'a\\'b'" ::
        ([.leaf .whitespace "  "] ++ .leaf .number "42" ::
          ([.leaf .whitespace " "] ++ [.leaf .word "\\$\x7bx\x7d"])))

/-- The tree of a command with these arguments and an assignment in front. -/
def quotedCommand : Node :=
  ⟨.command, [], [.leaf .variableAssignment "LANG=C", .leaf .whitespace " ",
    ⟨.commandName, "printf", [.leaf .word "printf"], [], 0, 0⟩] ++ quotedArguments, [], 0, 0⟩

/-- Each argument stays one argument. -/
theorem commandLine_words_quoted : ∃ call, ofNode? .none quotedCommand = some call ∧
    ∃ text t line, Compile.run .empty (Fragment.commandLine (.ofFuel .standard 3) call) =
        (.ok (some text), t) ∧
      Js.templateValue text = .ok ("LANG=C " ++ line) ∧
      Shell.words? line = some (["printf", "", "a'b", "42", "$\x7bx\x7d"] : List Text) := by
  have name : Node.Argument (.leaf .word "printf") "printf" :=
    ⟨⟨by decide, fun _ _ => by decide +kernel⟩, .word rfl rfl⟩
  have empty : Node.Argument (.leaf .rawString "''") "" :=
    ⟨⟨by decide, by simp [Node.leaf]⟩, .rawString rfl rfl⟩
  have apostrophe : Node.Argument (.leaf .ansiString "$'a\\'b'") "a'b" :=
    ⟨⟨by decide, by simp [Node.leaf]⟩,
      .ansiString rfl (show _ = "$'" ++ ("a\\'b" : Text) ++ "'" from rfl)⟩
  have digits : Node.Argument (.leaf .number "42") "42" :=
    ⟨⟨by decide, by simp [Node.leaf]⟩, .number rfl rfl⟩
  have escaped : Node.Argument (.leaf .word "\\$\x7bx\x7d") "$\x7bx\x7d" :=
    ⟨⟨by decide, fun _ plain => absurd plain (by decide)⟩, .word rfl rfl⟩
  have parted : Parted quotedArguments [.leaf .rawString "''", .leaf .ansiString "$'a\\'b'",
      .leaf .number "42", .leaf .word "\\$\x7bx\x7d"] := by
    refine .next ?_ ?_ (.next ?_ ?_ (.next ?_ ?_ (.next ?_ ?_ (.none (by simp)))))
    all_goals simp +decide [IsLayout, IsGap, Node.isBackslash, Node.leaf]
  obtain ⟨call, found, nameNode, arguments⟩ : ∃ call, ofNode? .none quotedCommand = some call ∧
      call.nameNode.significant = [.leaf .word "printf"] ∧ call.arguments = quotedArguments :=
    ⟨_, rfl, rfl, rfl⟩
  have before : written (assigned quotedCommand) = "LANG=C " := rfl
  have words := commandLine_words .standard (by decide : 3 ≤ 3) .empty found nameNode name
    (arguments ▸ parted) (.cons empty (.cons apostrophe (.cons digits (.cons escaped .nil))))
  rw [before] at words
  exact ⟨call, found, words⟩

end Call

end ShellToDeno
