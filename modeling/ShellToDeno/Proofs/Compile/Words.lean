import ShellToDeno.Proofs.Compile.Forms

/-!
# Words, strings, expansions and assignments

Each step agrees for two compilers that agree on the children of its node, and gives a fragment on
the level of the node. What is written holds no name of a helper but that of the exit status, which
stands for `$?`. All else comes from nodes or from the forms of fragments.
-/
namespace ShellToDeno

open Text CompileState Arguments

/-- Steps that agree and return a fragment on the level of a node whose children are `depth`
deep. -/
abbrev Settle (L : Ledger) (depth : Nat) (s : CompileState) (x y : Compile FragmentId) : Prop :=
  Agree L s x y fun id t => L.Returned t (6 * depth + 6) id

namespace Compile

variable {L : Ledger} {c d : Compiler} {s : CompileState} {depth : Nat}

theorem settle_new {fields : Fields} (rests : ∀ entry ∈ fields, L.Rests s (6 * depth + 5) entry.2)
    (plain : ∀ entry ∈ fields, isPlain entry.1) : Settle L depth s (new fields) (new fields) :=
  new_returned rests (shape_of_plain plain)

theorem settle_texts {fields : Fields} (texts : ∀ entry ∈ fields,
      isPlain entry.1 ∧ ∃ text, entry.2 = .text text ∧ L.Says s text) :
    Settle L depth s (new fields) (new fields) := new_texts texts _

theorem settle_statement {text : Text} (known : L.Says s text) :
    Settle L depth s (statement text) (statement text) := settle_texts (by simp [isPlain, known])

theorem settle_expression {text : Text} (known : L.Says s text) :
    Settle L depth s (expression text) (expression text) := expression_returned known _

theorem settle_fallback {text : Text} (plain : L.Plain text) :
    Settle L depth s (fallback text) (fallback text) := fallback_returned plain _

theorem settle_giveUp {n : Node} (neat : L.Neat n) (reason : Text) :
    Settle L depth s (giveUp n reason) (giveUp n reason) := giveUp_returned neat reason _

theorem settle_compile (serves : Serves L depth c d) (context : Context) {n : Node}
    (bounded : L.Fits depth n) : Settle L depth s (c.compile n context) (d.compile n context) :=
  (serves.compile context bounded).imp fun _ _ _ returned => returned.mono (by omega)

theorem env_writes {name : Text} (known : L.Says s name) :
    WritesText L s (env name) (env name) := by
  have access {t : CompileState} (step : L.Leads s t) :
      L.Says t ("env" ++ Js.propertyAccess name) :=
    .preceded ((known.lead step).of Js.spelled_propertyAccess) (by decide)
  refine (use_notes _).bind fun _ t step _ => ?_
  dsimp only
  split
  · exact (use_notes _).bind fun _ _ more _ => .pure (access (step.trans more))
  · exact .pure (access step)

theorem localVariable_writes {name : Text} (plain : L.Plain name) :
    WritesText L s (localVariable name) (localVariable name) :=
  (use_notes _).bind fun _ _ _ _ => .pure
    (.preceded (Ledger.Says.of (.of_plain plain) Js.spelled_propertyAccess) (by decide))

theorem sliceOf_agrees (t : Text) (start stop : Int) :
    Agrees L s (sliceOf t start stop) (sliceOf t start stop) := by
  rw [sliceOf]
  split
  · exact .pure trivial
  · exact .fault _

theorem reference?_subset {t name : Text} {length : Nat}
    (found : reference? t = some (name, length)) :
    name ⊆ t := by
  cases t with
  | nil => cases found
  | cons b rest =>
    unfold reference? at found
    dsimp only at found
    split at found
    · rw [Option.ite_none_left_eq_some] at found
      obtain ⟨rfl, _⟩ := Prod.mk.inj (Option.some.inj found.2)
      refine List.Subset.trans (List.take_subset _ _) (List.subset_cons_of_subset b ?_)
      split
      · split
        · exact List.subset_cons_self _ _
        · exact List.Subset.refl _
      · exact List.Subset.refl _
    · split at found
      · obtain ⟨rfl, _⟩ := Prod.mk.inj (Option.some.inj found)
        exact List.take_subset _ _
      · cases found

theorem arithmeticFrom_writes (skip : Nat) {text : Text} (plain : L.Plain text) :
    WritesText L s (arithmeticFrom skip text) (arithmeticFrom skip text) := by
  induction text generalizing s skip with
  | nil => exact .pure (.const (by decide))
  | cons b rest ih =>
    have below := plain.of fun plain => (Plain.cons_iff.1 plain).2
    cases skip with
    | succ skip => exact ih skip below
    | zero =>
      rw [arithmeticFrom]
      split
      · next name length found =>
        have named := plain.of fun plain => plain.subset (reference?_subset found)
        refine (env_writes (.of_plain named)).bind fun access t _ known => ?_
        exact (ih _ below).bind fun others u more rest => .pure (.append (known.lead more) rest)
      · have first : L.Plain [b] := plain.of fun plain => by simpa using (Plain.cons_iff.1 plain).1
        exact (ih 0 below).bind fun others t _ known => .pure (.append (.of_plain first) known)

theorem settle_interpolation {expression : Text} (known : L.Says s expression) :
    Settle L depth s (interpolation expression) (interpolation expression) :=
  settle_texts (by simp [isPlain, known, known.substitution])

theorem settle_quotedText {text : Text} (plain : L.Plain text) :
    Settle L depth s (quotedText text) (quotedText text) := by
  have literal : L.Says s (Js.stringLiteral text) :=
    Ledger.Says.of (.of_plain plain) Js.spelled_stringLiteral
  exact settle_texts (List.forall_mem_cons.2
    ⟨⟨rfl, _, rfl, literal⟩, literalFields_texts (plain.of Js.plain_templateInnards)⟩)

theorem settle_literal {text : Text} (plain : L.Plain text) :
    Settle L depth s (literal text) (literal text) := literal_returned plain _

/-- What `unset` gives for its operands. -/
def Removals.Says (L : Ledger) (s : CompileState) : Removals → Prop
  | texts statements => ∀ t ∈ statements, L.Says s t
  | _ => True

theorem removals_writes {operands : List Text} (plain : ∀ t ∈ operands, L.Plain t) :
    Agree L s (removals operands) (removals operands) fun found t => found.Says L t := by
  induction operands generalizing s with
  | nil => exact .pure (List.forall_mem_nil _)
  | cons operand rest ih =>
    obtain ⟨here, others⟩ := List.forall_mem_cons.1 plain
    rw [removals]
    split
    · exact ih others
    split
    · exact .pure trivial
    split
    · exact .pure trivial
    refine (env_writes (.of_plain here)).bind fun access t _ known => ?_
    refine Agree.get.bind fun state u step _ => ?_
    have removal : L.Says u ("delete " ++ access) := .preceded (known.lead step) (by decide)
    refine (ih others).bind fun found v more texts => ?_
    cases found with
    | texts statements =>
      refine .pure (List.forall_mem_cons.2 ⟨?_, texts⟩)
      split
      · exact .preceded (removal.lead more) (by decide)
      · exact removal.lead more
    | _ => exact .pure trivial

theorem plain_textOf {nodes : List Node} (bounded : ∀ m ∈ nodes, L.Fits depth m) :
    L.Plain (textOf nodes) := .flatMap fun m member => (bounded m member).text

/-- What follows the first node of some kind stands among the nodes. -/
theorem mem_of_mem_after {p : Node → Bool} {nodes : List Node} {m : Node}
    (member : m ∈ match nodes.dropWhile p with
      | [] => nodes
      | _ :: rest => rest) : m ∈ nodes := by
  split at member
  · exact member
  · next found =>
    exact (List.dropWhile_sublist p).subset (found ▸ List.mem_cons_of_mem _ member)

theorem plain_assignOperator? {m : Node} {operator : Text}
    (found : assignOperator? m = some operator) :
    Text.Plain operator := by
  unfold assignOperator? at found
  split at found
  · cases found
    decide
  split at found
  · cases found
    decide
  · cases found

/-- The values of an assignment stand among the children of its node. -/
theorem assignmentParts_among (n name : Node) (children : List Node) :
    Agree L s (assignmentParts n name children) (assignmentParts n name children) fun parts _ =>
      ∀ operator values, parts = .found operator values →
        operator.Plain ∧ ∀ v ∈ values, v ∈ children := by
  induction children with
  | nil => exact .pure (by simp)
  | cons child rest ih =>
    rw [assignmentParts]
    split
    · exact ih.imp fun parts t _ among operator values same =>
        ⟨(among operator values same).1, fun v member =>
          List.mem_cons_of_mem _ ((among operator values same).2 v member)⟩
    · next given =>
      refine (sliceOf_agrees _ _ _).bind fun _ _ _ _ => ?_
      split
      · exact .pure (by simp)
      · refine .pure ?_
        rintro operator values ⟨⟩
        exact ⟨plain_assignOperator? given, fun v member =>
          List.mem_cons_of_mem _ (List.mem_filter.1 member).1⟩

section
variable {n : Node} (neat : L.Neat n)
include neat

theorem settle_word : Settle L depth s (word n) (word n) := by
  rw [word]
  dsimp only
  split
  · refine (env_writes (.const (by decide))).bind fun home t _ known => settle_texts ?_
    have rest : L.Plain (Shell.unescapeWord (n.text.drop 1)) :=
      neat.text.of fun plain => (plain.drop 1).subset (Shell.unescapeWord_subset _)
    have innards : L.Says t (Js.substitution home ++ Js.templateInnards
        (Shell.unescapeWord (n.text.drop 1))) :=
      .append known.substitution (.of_plain (rest.of Js.plain_templateInnards))
    have argument : L.Says t (Js.substitution home ++ Dax.wordArgument
        (Shell.unescapeWord (n.text.drop 1))) :=
      .append known.substitution (.of_plain (rest.of fun plain => Dax.plain_wordFrom plain false))
    split
    · simpa [isPlain] using And.intro argument (And.intro innards innards.template)
    · simpa [isPlain] using And.intro innards innards.template
  · have fields := literalFields_texts (s := s) (neat.text.of fun plain =>
      Js.plain_templateInnards (plain.subset (Shell.unescapeWord_subset _)))
    refine settle_texts ?_
    split
    · exact List.forall_mem_cons.2
        ⟨⟨rfl, _, rfl, .of_plain (neat.text.of fun plain => Dax.plain_wordFrom plain false)⟩,
          fields⟩
    · exact fields

theorem settle_number : Settle L depth s (number n) (number n) :=
  new_returned (by simp [Ledger.Says.of_plain neat.text])
    (.plain (.of_single .pureCommand (by decide) (by simp [Form.commands])) (.text rfl rfl))

theorem settle_simpleExpansion (children : ∀ m ∈ n.children, L.Fits depth m) :
    Settle L depth s (simpleExpansion n) (simpleExpansion n) := by
  rw [simpleExpansion]
  split
  · next name found =>
    have named := (children name (List.mem_of_find?_eq_some found)).text
    exact (env_writes (.of_plain named)).bind fun _ _ _ known => settle_interpolation known
  · exact settle_giveUp neat _

theorem settle_reviewExpansion {access : Text} (known : L.Says s access) :
    Settle L depth s (reviewExpansion n access) (reviewExpansion n access) := by
  refine (log_agrees _ _ _).bind fun _ t step _ => settle_interpolation ?_
  have source : L.Says t (Js.commentText n.text) :=
    Ledger.Says.of (.of_plain neat.text) Js.spelled_commentText
  exact (known.lead step).followed (by decide) |>.append source |>.followed (by decide)

theorem settle_braceExpression : Settle L depth s (braceExpression n) (braceExpression n) := by
  refine Agree.bind (Agree.lift (Q := fun expansion _ => ∀ t ∈ expansion.texts, L.Plain t)
    fun expansion expanded t member strict =>
      Braces.plain_expand expanded (neat.text strict) t member) fun expansion t _ plain => ?_
  dsimp only
  split
  · exact settle_literal neat.text
  · have array : L.Says t ("[" ++ join ", " (expansion.texts.map Js.stringLiteral) ++ "]") := by
      refine Ledger.Says.within (.join (by decide) fun text member => ?_) (by decide) (by decide)
      obtain ⟨value, among, rfl⟩ := List.mem_map.1 member
      exact Ledger.Says.of (.of_plain (plain value among)) Js.spelled_stringLiteral
    exact add_returned _ (by simpa using array) (by simpa using plain)
      (shape_of_plain (by simp [isPlain]))

theorem settle_arithmeticExpansion :
    Settle L depth s (arithmeticExpansion n) (arithmeticExpansion n) := by
  rw [arithmeticExpansion]
  split
  · next body cut =>
    have plain : L.Plain body := neat.text.of fun plain => by
      obtain ⟨rest, first, second⟩ := Option.bind_eq_some_iff.1 cut
      have whole : Spelled [] n.text := .of_plain plain
      exact ((whole.cutStart? first).cutEnd? rfl second).plain
    refine (arithmeticFrom_writes 0 plain).bind fun expression t _ known => ?_
    have grouped : L.Says t ("(" ++ Utf8.trim expression ++ ")") :=
      (known.of Utf8.spelled_trim).within (by decide) (by decide)
    exact settle_texts (by simpa [isPlain] using ⟨grouped.substitution, grouped⟩)
  · exact settle_giveUp neat _

theorem settle_unset (children : ∀ m ∈ n.children, L.Fits depth m) :
    Settle L depth s (unset n) (unset n) := by
  refine (removals_writes fun t mem => ?_).bind fun found t _ known => ?_
  · obtain ⟨group, listed, rfl⟩ := List.mem_map.1 mem
    exact plain_textOf fun m member =>
      children m (mem_of_mem_after (mem_of_mem_groups listed member))
  · split <;> first
      | exact settle_giveUp neat _
      | exact settle_statement (.join (by decide) known)

end

section
variable (serves : Serves L depth c d)
include serves

theorem withLiteralBraces_returned (context : Context) {n : Node} (bounded : L.Fits depth n) :
    Agree L s (withLiteralBraces c context n) (withLiteralBraces d context n)
      fun id t => L.Returned t (6 * depth + 1) id := by
  refine (serves.compile context bounded).bind fun id t _ returned => ?_
  refine (values?_same id).bind fun values u _ same => ?_
  split
  · exact literal_returned bounded.text _
  · exact .pure (same.1 ▸ returned.mono (by omega))

theorem rendered_agrees (context : Context) {nodes : List Node}
    (bounded : ∀ n ∈ nodes, L.Fits depth n) :
    Agree L s (nodes.mapM fun n => do Fragment.render c (← c.compile n context) n context)
      (nodes.mapM fun n => do Fragment.render d (← d.compile n context) n context)
      fun texts t => ∀ text ∈ texts, L.Says t text :=
  Agree.mapM_writes fun n member _ _ => (serves.low context (bounded n member)).bind
    fun _ _ _ low =>
    Fragment.render_agrees serves.reads (bounded n member).text _ (low.mono (by omega))

theorem statements_writes (context : Context) {nodes : List Node}
    (bounded : ∀ n ∈ nodes, L.Fits depth n) :
    WritesText L s (statements c context nodes) (statements d context nodes) :=
  (rendered_agrees serves context bounded).map fun _ _ _ known => .flatten known

/-- Parts compiled one by one and combined. A part that is alone is returned as it is. -/
theorem combined_returned {f g : Node → Compile FragmentId} {nodes : List Node}
    (each : ∀ {t}, ∀ n ∈ nodes, Agree L t (f n) (g n) fun id u => L.Returned u (6 * depth + 1) id) :
    Agree L s (do combine c (← nodes.mapM f)) (do combine d (← nodes.mapM g))
      fun id t => L.Returned t (6 * depth + 2) id := by
  by_cases alone : ∃ only, nodes = [only]
  · obtain ⟨only, rfl⟩ := alone
    simp only [List.mapM_cons, List.mapM_nil, bind_assoc, pure_bind]
    exact (each only (by simp)).bind fun id t _ returned => .pure (returned.mono (by omega))
  refine Agree.bind (Agree.mapM (R := fun id t => L.Low t (6 * depth + 1) id) Ledger.Low.lead
    fun n member _ _ => (each n member).imp fun _ _ _ returned => returned.low)
    fun ids t _ low => ?_
  refine combine_several serves.reads (by omega) low.2 fun only same => alone ?_
  rw [same] at low
  exact List.length_eq_one_iff.1 low.1.symm

theorem settle_combined {f g : Node → Compile FragmentId} {nodes : List Node}
    (each : ∀ {t}, ∀ n ∈ nodes, Agree L t (f n) (g n) fun id u => L.Returned u (6 * depth + 1) id) :
    Settle L depth s (do combine c (← nodes.mapM f)) (do combine d (← nodes.mapM g)) :=
  (combined_returned serves each).imp fun _ _ _ returned => returned.mono (by omega)

variable {n : Node} (neat : L.Neat n) (children : ∀ m ∈ n.children, L.Fits depth m)
include children

theorem settle_string (context : Context) :
    Settle L depth s (string c context n) (string d context n) := by
  have quoted : ∀ m ∈ quotedParts n, L.Fits depth m :=
    fun m member => children m (List.mem_filter.1 member).1
  rw [string, string]
  generalize quotedParts n = parts at quoted
  split
  · refine settle_texts ?_
    simp only [List.forall_mem_cons]
    exact ⟨⟨rfl, _, rfl, .const (by decide)⟩, ⟨rfl, _, rfl, .const (by decide)⟩,
      List.forall_mem_nil _⟩
  · exact settle_compile serves context (quoted _ List.mem_cons_self)
  · exact settle_combined serves fun m member =>
      (serves.compile context (quoted m member)).imp fun _ _ _ returned => returned.mono (by omega)

theorem settle_concatenation (context : Context) :
    Settle L depth s (concatenation c context n) (concatenation d context n) :=
  settle_combined serves fun m member => withLiteralBraces_returned serves context
    (children m member)

include neat

theorem settle_commandName (context : Context) :
    Settle L depth s (commandName c context n) (commandName d context n) := by
  have inner : ∀ m ∈ n.significant, L.Fits depth m :=
    fun m member => children m (List.mem_filter.1 member).1
  rw [commandName, commandName]
  generalize n.significant = significant at inner
  split
  · exact settle_compile serves context (inner _ List.mem_cons_self)
  · exact settle_giveUp neat _

theorem settle_defaultExpansion (context : Context) (name : Node) {access : Text}
    (known : L.Says s access) {operator : Text × Text} (member : operator ∈ defaultOperators) :
    Settle L depth s (defaultExpansion c context n name access operator)
      (defaultExpansion d context n name access operator) := by
  have plain : ∀ entry ∈ defaultOperators, Text.Plain entry.2 := by decide
  have joined {t : CompileState} (step : L.Leads s t) {value : Text} (given : L.Says t value) :
      Settle L depth t (interpolation ("(" ++ access ++ " " ++ operator.2 ++ " " ++ value ++ ")"))
        (interpolation ("(" ++ access ++ " " ++ operator.2 ++ " " ++ value ++ ")")) :=
    settle_interpolation ((known.lead step).within (by decide) (by decide)
      |>.append (.of_plain (.const (plain _ member))) |>.followed (by decide) |>.append given
      |>.followed (by decide))
  rw [defaultExpansion, defaultExpansion]
  dsimp only
  split
  · exact joined (.refl s) (.const (by decide))
  · next child found =>
    have bounded := children child (List.mem_of_find?_eq_some found)
    refine (withLiteralBraces_returned serves context bounded).bind fun id t step returned => ?_
    refine (serves.reads.read .value (returned.low.mono (by omega))).bind
      fun value u more given => ?_
    cases value with
    | some value => exact joined (step.trans more) (given value rfl)
    | none => exact settle_reviewExpansion neat (known.lead (step.trans more))

theorem settle_expansion (context : Context) :
    Settle L depth s (expansion c context n) (expansion d context n) := by
  rw [expansion, expansion]
  split
  · next name body found _ =>
    have named := (children name (List.mem_of_find?_eq_some found)).text
    refine (sliceOf_agrees _ _ _).bind fun _ _ _ _ => (sliceOf_agrees _ _ _).bind fun _ _ _ _ =>
      (env_writes (.of_plain named)).bind fun access t _ known => ?_
    split
    · exact settle_interpolation (known.followed (by decide))
    split
    · exact settle_reviewExpansion neat known
    split
    · exact settle_interpolation known
    split
    · exact settle_interpolation (known.followed (by decide))
    split
    · exact settle_interpolation (known.followed (by decide))
    split
    · next chosen =>
      exact settle_defaultExpansion serves neat children _ name known
        (List.mem_of_find?_eq_some chosen)
    · exact settle_reviewExpansion neat known
  · exact settle_giveUp neat _

omit neat in
theorem settle_array (context : Context) :
    Settle L depth s (array c context n) (array d context n) := by
  have elements : ∀ m ∈ n.children.filter fun child => !child.isAny [.token "(", .token ")"],
      L.Fits depth m := fun m member => children m (List.mem_filter.1 member).1
  refine (unify_low serves context elements).bind fun _ _ _ low =>
    settle_new ?_ (by simp [isPlain])
  simpa [Ledger.rests_iff, Recipe.Rests, Recipe.Within, Recipe.call?, Recipe.Clean] using low.mono
    (by omega)

theorem settle_commandSubstitution :
    Settle L depth s (commandSubstitution c n) (commandSubstitution d n) := by
  rw [commandSubstitution, commandSubstitution]
  split
  · next only single =>
    have listed := single ▸ List.mem_singleton_self only
    have member := (List.mem_filter.1 (List.mem_filter.1 listed).1).1
    refine (serves.low _ (children only member)).bind fun inner t _ low => ?_
    refine (isFallback_same inner).bind fun failed u step _ => ?_
    split
    · exact settle_fallback neat.text
    · refine settle_new ?_ (by simp [isPlain])
      simpa [Ledger.rests_iff, Recipe.Rests, Recipe.Within, Recipe.call?, Recipe.Clean] using
        (low.lead step).mono (by omega)
  · exact settle_giveUp neat _

end

section
variable (serves : Serves L depth c d)
include serves

theorem assignedValue_writes (context : Context) {values : List Node}
    (bounded : ∀ v ∈ values, L.Fits depth v) :
    WritesAny L s (assignedValue c context values) (assignedValue d context values) := by
  have combined {values : List Node} (bounded : ∀ v ∈ values, L.Fits depth v) : WritesAny L s
      (do c.read (← combine c (← values.mapM (withLiteralBraces c context))) .value)
      (do d.read (← combine d (← values.mapM (withLiteralBraces d context))) .value) := by
    rw [← bind_assoc, ← bind_assoc]
    exact (combined_returned serves fun v member =>
      withLiteralBraces_returned serves context (bounded v member)).bind fun id u _ returned =>
        serves.reads.read .value (returned.low.mono (by omega))
  match values, bounded with
  | [], _ => exact .present (.const (by decide))
  | [only], bounded =>
    rw [assignedValue, assignedValue]
    dsimp only
    split
    · exact (serves.low context (bounded only (by simp))).bind fun id t _ low =>
        serves.reads.read .array (low.mono (by omega))
    · exact combined bounded
  | first :: second :: rest, bounded => exact combined bounded

/-- An assignment is made from a text. -/
theorem assignment_returned (context : Context) {n : Node} (neat : L.Neat n)
    (children : ∀ m ∈ n.children, L.Fits depth m) :
    Agree L s (assignment c context n) (assignment d context n) fun id t => L.Returned t 1 id := by
  rw [assignment, assignment]
  split
  · next name found =>
    have named := (children name (List.mem_of_find?_eq_some found)).text
    refine (assignmentParts_among _ _ _).bind fun parts t _ among => ?_
    split
    · exact giveUp_returned neat _ 0
    · exact giveUp_returned neat _ 0
    next operator values =>
    obtain ⟨plain, inside⟩ := among operator values rfl
    refine (assignedValue_writes serves context fun v member => children v (inside v member)).bind
      fun value u _ given => ?_
    cases value with
    | none => exact giveUp_returned neat _ 0
    | some value =>
      have finish {v : CompileState} (step : L.Leads u v) {target : Text}
          (known : L.Says v target) :
          Agree L v (expression (target ++ " " ++ operator ++ " " ++ value))
            (expression (target ++ " " ++ operator ++ " " ++ value)) fun id t =>
            L.Returned t 1 id :=
        expression_returned (known.followed (by decide) |>.append (.of_plain (.const plain))
          |>.followed (by decide) |>.append ((given value rfl).lead step)) 0
      dsimp only
      split
      · exact (localVariable_writes named).bind fun _ _ step known => finish step known
      · exact (env_writes (.of_plain named)).bind fun _ _ step known => finish step known
  · exact giveUp_returned neat _ 0

theorem settle_assignment (context : Context) {n : Node} (neat : L.Neat n)
    (children : ∀ m ∈ n.children, L.Fits depth m) :
    Settle L depth s (assignment c context n) (assignment d context n) :=
  (assignment_returned serves context neat children).imp fun _ _ _ returned =>
    returned.mono (by omega)

theorem assignmentTexts_writes (context : Context) {nodes : List Node}
    (bounded : ∀ n ∈ nodes, L.Fits depth n) :
    WritesAll L s (assignmentTexts c context nodes) (assignmentTexts d context nodes) := by
  induction nodes generalizing s with
  | nil => exact .pure (by simp)
  | cons n rest ih =>
    obtain ⟨here, others⟩ := List.forall_mem_cons.1 bounded
    refine (assignment_returned serves context here.neat fun _ => here.child).bind
      fun id t _ returned => ?_
    refine (isFallback_same id).bind fun failed u step _ => ?_
    split
    · exact .pure (by simp)
    · exact (serves.reads.read .statement ((returned.low.lead step).mono (by omega))).bind
        fun _ _ _ known => (ih others).consText (.getD known (.const (by decide)))

theorem settle_assignments (context : Context) {n : Node} (neat : L.Neat n)
    (children : ∀ m ∈ n.children, L.Fits depth m) :
    Settle L depth s (assignments c context n) (assignments d context n) := by
  have bounded : ∀ m ∈ n.childrenOf [.variableAssignment], L.Fits depth m :=
    fun m member => children m (List.mem_filter.1 member).1
  refine (assignmentTexts_writes serves context bounded).bind fun found t _ known => ?_
  cases found with
  | some texts => exact settle_expression (.join (by decide) (known texts rfl))
  | none => exact settle_fallback neat.text

end

/-- What the words after a declaring keyword give. -/
def Declarations.Says (L : Ledger) (s : CompileState) : Declarations → Prop
  | texts statements => ∀ t ∈ statements, L.Says s t
  | _ => True

theorem Declarations.Says.cons {found : Declarations} (known : found.Says L s) {t : Text}
    (first : L.Says s t) : (found.cons t).Says L s := by
  cases found with
  | texts statements => exact List.forall_mem_cons.2 ⟨first, known⟩
  | _ => trivial

section
variable (serves : Serves L depth c d)
include serves

theorem declarations_writes (context : Context) (isLocal : Bool) {nodes : List Node}
    (bounded : ∀ n ∈ nodes, L.Fits depth n) :
    Agree L s (declarations c context isLocal nodes) (declarations d context isLocal nodes)
      fun found t => found.Says L t := by
  induction nodes generalizing s with
  | nil => exact .pure (List.forall_mem_nil _)
  | cons n rest ih =>
    obtain ⟨here, others⟩ := List.forall_mem_cons.1 bounded
    have following {t : CompileState} {text : Text} (known : L.Says t text) :
        Agree L t (do return (← declarations c context isLocal rest).cons text)
          (do return (← declarations d context isLocal rest).cons text) fun found t =>
          found.Says L t :=
      (ih others).bind fun _ _ step texts => .pure (texts.cons (known.lead step))
    rw [declarations, declarations]
    split
    · refine (assignment_returned serves _ here.neat fun _ => here.child).bind
        fun id t _ returned => ?_
      refine (isFallback_same id).bind fun failed u step _ => ?_
      split
      · exact .pure trivial
      · exact (serves.reads.read .statement ((returned.low.lead step).mono (by omega))).bind
          fun _ _ _ known => following (.getD known (.const (by decide)))
    split
    · exact (localVariable_writes here.text).bind fun _ _ _ known =>
        following (known.followed (by decide))
    split
    · exact ih others
    · exact .pure trivial

theorem settle_declaration (context : Context) {n : Node} (neat : L.Neat n)
    (children : ∀ m ∈ n.children, L.Fits depth m) :
    Settle L depth s (declaration c context n) (declaration d context n) := by
  have inner : ∀ m ∈ n.significant, L.Fits depth m :=
    fun m member => children m (List.mem_filter.1 member).1
  rw [declaration, declaration]
  generalize n.significant = significant at inner
  split
  · exact settle_giveUp neat _
  refine (declarations_writes serves context _ (List.forall_mem_cons.1 inner).2).bind
    fun found t _ known => ?_
  split
  · exact settle_fallback neat.text
  · exact settle_giveUp neat _
  · exact settle_giveUp neat _
  · exact settle_expression (.join (by decide) known)

end

end Compile

end ShellToDeno
