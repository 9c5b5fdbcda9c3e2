import ShellToDeno.Proofs.Compile.Pipelines
import ShellToDeno.Proofs.Compile.Tests

/-!
# Conditions, loops, functions and groups

With these all branches of the compiler agree for two compilers that agree on the nodes below, and
return fragments of the known shapes. The names of the iterator and of the scope come after their
features are noted.
-/
namespace ShellToDeno

open Text CompileState Arguments

namespace Text

theorem Plain.cutStart {t : Text} (plain : Plain t) (start : Text) : Plain (cutStart start t) :=
  ((Spelled.of_plain plain).cutStart start).plain

theorem Plain.cutEnd {t : Text} (plain : Plain t) {ending : Text}
    (stops : ending.head?.any isLetter = false) : Plain (cutEnd ending t) :=
  ((Spelled.of_plain plain).cutEnd stops).plain

theorem Plain.trim {t : Text} (plain : Plain t) : Plain (Utf8.trim t) :=
  (Utf8.spelled_trim (.of_plain plain)).plain

end Text

namespace Compile

variable {L : Ledger} {c d : Compiler} {s : CompileState} {depth : Nat}

theorem plain_oneLine {t : Text} (plain : Plain t) : Plain (oneLine t) :=
  (carries_replaceAll (by decide) (by decide) t).plain plain

theorem settle_comment {n : Node} (neat : L.Neat n) : Settle L depth s (comment n) (comment n) := by
  rw [comment]
  split
  · exact (use_notes _).bind fun _ _ _ _ => settle_statement (.const (by decide))
  · exact settle_statement
      (Ledger.Says.preceded (.of_plain (neat.text.of fun plain => plain.cutStart _)) (by decide))

theorem mem_of_mem_trimSeparators {n : Node} {nodes : List Node}
    (member : n ∈ trimSeparators nodes) :
    n ∈ nodes := by
  have trimmed := List.mem_reverse.1 ((List.dropWhile_sublist _).subset member)
  exact List.mem_reverse.1 ((List.dropWhile_sublist _).subset trimmed)

theorem withoutClosing_subset (opened : List Node) : (match opened.getLast? with
    | some last => if last.kind == .token "\x7d" then opened.dropLast else opened
    | none => []) ⊆ opened := by
  split
  · split
    · exact List.dropLast_subset _
    · exact List.Subset.refl _
  · exact List.nil_subset _

theorem insideBraces_subset (nodes : List Node) : insideBraces nodes ⊆ nodes := by
  refine List.Subset.trans (withoutClosing_subset _) ?_
  split
  · split
    · exact List.subset_cons_self _ _
    · exact List.Subset.refl _
  · exact List.Subset.refl _

theorem mem_of_mem_afterKeyword {n : Node} {keyword : Text} {nodes : List Node}
    (member : n ∈ afterKeyword keyword nodes) : n ∈ nodes := by
  unfold afterKeyword at member
  split at member
  · exact member
  · next found =>
    exact (List.dropWhile_sublist _).subset (found ▸ List.mem_cons_of_mem _ member)

theorem plain_headIndent {nodes : List Node} (bounded : ∀ m ∈ nodes, L.Fits depth m) :
    L.Plain ((nodes.head?.map Node.indent).getD []) := by
  cases nodes with
  | nil => exact .const .nil
  | cons first rest => exact (bounded first List.mem_cons_self).neat.indent

theorem plain_blockLead {indent : Text} (plain : L.Plain indent) {nodes : List Node}
    (bounded : ∀ m ∈ nodes, L.Fits depth m) : L.Plain (blockLead indent nodes).1 := by
  unfold blockLead
  extract_lets trimmed ownLine
  cases ownLine with
  | true => exact plain_headIndent fun m member => bounded m (mem_of_mem_trimSeparators member)
  | false => exact plain.append (.const (by decide))

/-- A condition of which all that is shown is accounted for. -/
structure SourceCondition.Says (L : Ledger) (s : CompileState) (condition : SourceCondition) :
    Prop where
  source : L.Plain condition.source
  indent : L.Plain condition.indent
  text : L.Says s condition.text

theorem says_countingLoop {target : Text} (known : L.Says s target) (range : Braces.Range) :
    L.Says s (countingLoop target range) := by
  have number (i : Int) : L.Says s (ofInt i) := .of_plain (.const (plain_ofInt i))
  unfold countingLoop
  extract_lets first last step down sign update
  have signed : L.Says s sign := by
    dsimp only [sign]
    split <;> exact .const (by decide)
  have compared : L.Says s (ofString (if down then " >= " else " <= ")) := by
    split <;> exact .const (by decide)
  have updated : L.Says s update := by
    dsimp only [update]
    split
    · exact .append (.append known signed) signed
    · exact known.followed (by decide) |>.append signed |>.followed (by decide) |>.append (number _)
  exact known.within (by decide) (by decide) |>.append (number _) |>.followed (by decide)
    |>.append known |>.append compared |>.append (number _) |>.followed (by decide)
    |>.append updated |>.followed (by decide)

theorem plain_countedHeader? {header clauses : Text} (found : countedHeader? header = some clauses)
    (plain : Plain header) : Plain clauses := by
  obtain ⟨rest, first, found⟩ := Option.bind_eq_some_iff.1 found
  obtain ⟨inside, second, found⟩ := Option.bind_eq_some_iff.1 found
  have after : Plain rest := ((Spelled.of_plain plain).cutStart? first).plain
  have dropped : Plain (rest.dropWhile isSpace) := after.subset (List.dropWhile_sublist _).subset
  have opened : Plain inside := ((Spelled.of_plain dropped).cutStart? second).plain
  have ended : Plain (dropEndWhile isSpace (cutEnd ";" inside)) :=
    (opened.cutEnd rfl).subset fun b member =>
      List.mem_reverse.1 ((List.dropWhile_sublist _).subset (List.mem_reverse.1 member))
  exact ((Spelled.of_plain ended).cutEnd? rfl found).plain

/-- The nodes that an if statement still holds. -/
def IfStage.nodes : IfStage → List Node
  | .condition nodes | .consequence nodes => nodes
  | .start | .clauses _ => []

section
variable (serves : Serves L depth c d)
include serves

theorem block_writes (context : Context) {indent : Text} (plain : L.Plain indent)
    {nodes : List Node}
    (bounded : ∀ n ∈ nodes, L.Fits depth n) :
    WritesText L s (block c context indent nodes) (block d context indent nodes) := by
  have lead := plain_blockLead plain bounded
  have trimmed : ∀ n ∈ (blockLead indent nodes).2, L.Fits depth n :=
    fun n member => bounded n (mem_of_mem_trimSeparators member)
  rw [block, block]
  generalize blockLead indent nodes = start at lead trimmed
  split
  · exact .pure (.const (by decide))
  · exact (statements_writes serves context trimmed).map fun _ _ _ known =>
      .append (.of_plain lead) known

omit serves in
theorem readFirstOr_writes {level : Nat} (reads : ReadsAlike L level c d) {id : FragmentId}
    {n : Node}
    (plain : L.Plain n.text) (forms : List Form) (low : L.Low s level id) :
    WritesAny L s (readFirstOr c id n forms) (readFirstOr d id n forms) := by
  induction forms generalizing s with
  | nil => exact .absent
  | cons form rest ih =>
    refine (Fragment.readOr_agrees reads plain form low).bind fun found t step known => ?_
    cases found with
    | some text => exact .pure known
    | none => exact ih (low.lead step)

theorem conditionOf_writes {nodes : List Node} (bounded : ∀ n ∈ nodes, L.Fits depth n) :
    Agree L s (conditionOf c nodes) (conditionOf d nodes) fun condition t =>
    condition.Says L t := by
  have trimmed : ∀ m ∈ trimSeparators nodes, L.Fits depth m :=
    fun m member => bounded m (mem_of_mem_trimSeparators member)
  have source := (plain_textOf trimmed).of plain_oneLine
  have indent := plain_headIndent trimmed
  rw [conditionOf, conditionOf]
  split
  · next only single =>
    have here := trimmed only (List.mem_filter.1 (single ▸ List.mem_singleton_self only)).1
    refine (serves.low .ifCondition here).bind fun id t _ low => ?_
    exact (readFirstOr_writes serves.reads here.text _ (low.mono (by omega))).map
      fun _ _ _ known => ⟨source, indent, .getD known (.marker source)⟩
  · exact (log_agrees _ _ _).bind fun _ _ _ _ => .pure ⟨source, indent, .marker source⟩

theorem elifClause_writes {indent : Text} (plain : L.Plain indent) {n : Node}
    (bounded : L.Fits depth n) :
    WritesText L s (elifClause c indent n) (elifClause d indent n) := by
  have start {t : CompileState} : L.Says t indent := .of_plain plain
  rw [elifClause, elifClause]
  split
  · exact .pure (start.within (by decide) (by decide) |>.append (.marker bounded.text)
      |>.followed (by decide))
  · next body rest =>
    refine (conditionOf_writes serves fun m member => ?_).bind fun condition t _ known =>
      (block_writes serves _ plain fun m member => ?_).map fun text u step given => ?_
    · have listed := (List.mem_filter.1 member).1
      exact bounded.child ((List.takeWhile_sublist _).subset listed)
    · exact bounded.child (List.mem_of_mem_drop (rest ▸ List.mem_cons_of_mem _ member))
    · exact start.within (by decide) (by decide) |>.append (.of_plain known.source)
        |>.followed (by decide) |>.append start |>.followed (by decide)
        |>.append (known.text.lead step) |>.followed (by decide) |>.append given

theorem ifClause_writes {indent : Text} (plain : L.Plain indent) {n : Node}
    (bounded : L.Fits depth n) : WritesText L s (ifClause c indent n) (ifClause d indent n) := by
  have start {t : CompileState} : L.Says t indent := .of_plain plain
  rw [ifClause, ifClause]
  split
  · exact elifClause_writes serves plain bounded
  split
  · refine (block_writes serves _ plain fun m member => ?_).map fun text _ _ given =>
      .append (start.within (by decide) (by decide)) given
    exact bounded.child (mem_of_mem_afterKeyword member)
  · exact .pure (start.within (by decide) (by decide))

/-- One child of an if statement; what the statement holds afterwards is not too deep either. -/
theorem ifStep_agree {indent : Text} (plain : L.Plain indent) {stage : IfStage} {n : Node}
    (bounded : L.Fits depth n) (held : ∀ m ∈ stage.nodes, L.Fits depth m) :
    Agree L s (ifStep c indent stage n) (ifStep d indent stage n)
      fun next t => (∀ m ∈ next.1.nodes, L.Fits depth m) ∧ L.Says t next.2 := by
  have nothing {t : CompileState} : L.Says t [] := .of_plain (.const .nil)
  unfold ifStep
  dsimp only
  cases stage with
  | start =>
    refine .pure ⟨?_, nothing⟩
    split <;> simp [IfStage.nodes]
  | condition nodes =>
    have held : ∀ m ∈ nodes, L.Fits depth m := held
    dsimp only
    split
    · exact .pure ⟨List.forall_mem_append.2 ⟨held, List.forall_mem_singleton.2 bounded⟩, nothing⟩
    · refine (conditionOf_writes serves held).bind fun condition _ _ known =>
        .pure ⟨by simp [IfStage.nodes], ?_⟩
      exact Ledger.Says.within (.of_plain known.source) (by decide) (by decide)
        |>.append (.of_plain known.indent) |>.followed (by decide) |>.append known.text
        |>.followed (by decide)
  | consequence nodes =>
    have held : ∀ m ∈ nodes, L.Fits depth m := held
    dsimp only
    split
    · exact .pure ⟨List.forall_mem_append.2 ⟨held, List.forall_mem_singleton.2 bounded⟩, nothing⟩
    · exact (block_writes serves _ plain held).bind fun _ _ _ given =>
        (ifClause_writes serves plain bounded).bind fun _ _ step known =>
          .pure ⟨by simp [IfStage.nodes], .append (given.lead step) known⟩
  | clauses closed =>
    dsimp only
    split
    · exact .pure ⟨by simp [IfStage.nodes], nothing⟩
    · exact (ifClause_writes serves plain bounded).bind fun _ _ _ known =>
        .pure ⟨by simp [IfStage.nodes], known⟩

theorem ifFrom_writes {indent : Text} (plain : L.Plain indent) {stage : IfStage} {written : Text}
    {nodes : List Node} (bounded : ∀ n ∈ nodes, L.Fits depth n)
    (held : ∀ m ∈ stage.nodes, L.Fits depth m) (known : L.Says s written) :
    WritesAny L s (ifFrom c indent stage written nodes) (ifFrom d indent stage written nodes) := by
  induction nodes generalizing s stage written with
  | nil =>
    refine .pure ?_
    split
    · simpa using known
    · simp
  | cons n rest ih =>
    obtain ⟨here, others⟩ := List.forall_mem_cons.1 bounded
    exact (ifStep_agree serves plain here held).bind fun next t step following =>
      ih others following.1 ((known.lead step).append following.2)

theorem settle_ifStatement {n : Node} (neat : L.Neat n)
    (children : ∀ m ∈ n.children, L.Fits depth m) :
    Settle L depth s (ifStatement c n) (ifStatement d n) := by
  have start : ∀ m ∈ IfStage.start.nodes, L.Fits depth m := List.forall_mem_nil _
  refine (ifFrom_writes serves neat.indent children start (.const (by decide))).bind
    fun found t _ known => ?_
  cases found with
  | some text => exact settle_statement (known text rfl)
  | none => exact settle_giveUp neat _

theorem doGroup_writes {indent : Text} (plain : L.Plain indent) {n : Node}
    (bounded : L.Fits depth n) :
    WritesText L s (doGroup c indent n) (doGroup d indent n) :=
  (block_writes serves _ plain fun _ member => bounded.child (List.mem_filter.1 member).1).map
    fun _ _ _ known => known.within (by decide) (by decide) |>.append (.of_plain plain)
      |>.followed (by decide)

omit serves in
theorem iteratedOf_writes {level : Nat} (reads : ReadsAlike L level c d) {ids : List FragmentId}
    (low : ∀ id ∈ ids, L.Low s level id) : WritesAll L s (iteratedOf c ids) (iteratedOf d ids) := by
  induction ids generalizing s with
  | nil => exact .pure (by simp)
  | cons id rest ih =>
    refine (isFallback_same id).bind fun failed t step _ => ?_
    split
    · exact .pure (by simp)
    obtain ⟨here, others⟩ := List.forall_mem_cons.1 fun id member => (low id member).lead step
    refine (reads.readFirst _ here).bind fun found u step known => ?_
    cases found with
    | some value =>
      exact (ih fun id member => (others id member).lead step).consText (known value rfl)
    | none => exact .pure (by simp)

theorem iterated_writes {groups : List (List Node)}
    (bounded : ∀ group ∈ groups, ∀ n ∈ group, L.Fits depth n) :
    WritesAll L s (iterated c groups) (iterated d groups) := by
  induction groups generalizing s with
  | nil => exact .pure (by simp)
  | cons group rest ih =>
    obtain ⟨here, others⟩ := List.forall_mem_cons.1 bounded
    refine (convert_low serves .forHeader here).bind fun ids t _ low => ?_
    refine (iteratedOf_writes serves.reads fun id member => (low id member).mono (by omega)).bind
      fun found u _ known => ?_
    cases found with
    | none => exact .pure (by simp)
    | some values =>
      refine (ih others).map fun found v step given texts same => ?_
      obtain ⟨more, among, rfl⟩ := Option.map_eq_some_iff.1 same
      refine List.forall_mem_append.2 ⟨fun t member => ?_, given more among⟩
      exact (known values rfl t member).lead step

theorem iteratingLoop_writes {target comment : Text} (known : L.Says s target)
    (plain : L.Plain comment) {groups : List (List Node)}
    (bounded : ∀ group ∈ groups, ∀ n ∈ group, L.Fits depth n) :
    WritesAny L s (iteratingLoop c target comment groups)
      (iteratingLoop d target comment groups) := by
  refine (use_notes _).bind fun _ t step has => ?_
  refine (iterated_writes serves bounded).bind fun found u more given => ?_
  have target := known.lead (step.trans more)
  replace has := has.lead more
  split
  · exact .absent
  · next only =>
    have value := given _ rfl only List.mem_cons_self
    exact .present (Ledger.Says.followed (.of_plain plain) (by decide) |>.append target
      |>.append (.helper has (by decide)) |>.append value |>.followed (by decide))
  · next values _ =>
    have spread : ∀ t ∈ values.map fun value => (("...iterateOver(" : Text) ++ value ++ ")"),
        L.Says u t := by
      intro t member
      obtain ⟨value, among, rfl⟩ := List.mem_map.1 member
      exact .followed (.append (.helper has (by decide)) (given values rfl value among)) (by decide)
    exact .present (Ledger.Says.followed (.of_plain plain) (by decide) |>.append target
      |>.followed (by decide) |>.append (.join (by decide) spread) |>.followed (by decide))

theorem itemsHeader_writes {target comment : Text} (known : L.Says s target)
    (plain : L.Plain comment) {items : List Node} (bounded : ∀ n ∈ items, L.Fits depth n) :
    WritesAny L s (itemsHeader c target comment items) (itemsHeader d target comment items) := by
  have loop {t : CompileState} (step : L.Leads s t) :
      WritesAny L t (iteratingLoop c target comment (groups items))
        (iteratingLoop d target comment (groups items)) :=
    iteratingLoop_writes serves (known.lead step) plain fun group listed n member =>
      bounded n (mem_of_mem_groups listed member)
  refine (unify_low serves .forHeader bounded).bind fun unified t step low => ?_
  split
  · refine (serves.reads.read .array (low.mono (by omega))).bind fun found u more given => ?_
    cases found with
    | some array =>
      exact .present ((known.lead (step.trans more)).within (by decide) (by decide)
        |>.append (given array rfl) |>.followed (by decide))
    | none => exact loop (step.trans more)
  · exact loop step

theorem forHeader_writes {n : Node} (neat : L.Neat n) (children : ∀ m ∈ n.children, L.Fits depth m)
    {header : List Node} (bounded : ∀ n ∈ header, L.Fits depth n) {headerText : Text}
    (plain : L.Plain headerText) :
    WritesAny L s (forHeader c n header headerText) (forHeader d n header headerText) := by
  rw [forHeader, forHeader]
  split
  · next name found =>
    have named := (children name (List.mem_of_find?_eq_some found)).text
    refine (env_writes (.of_plain named)).bind fun target t _ known => ?_
    have comment : L.Plain ("// " ++ oneLine headerText ++ "\n" ++ n.indent) :=
      .append (.append (.append (.const (by decide)) (plain.of plain_oneLine)) (.const (by decide)))
        neat.indent
    extract_lets overArguments
    have whole : L.Says t overArguments := known.within (by decide) (by decide)
    split
    · exact .present whole
    · next first rest found =>
      extract_lets items sole
      have among : ∀ m ∈ items, L.Fits depth m := by
        intro m member
        have listed : m ∈ first :: rest := List.mem_cons_of_mem _ (List.mem_filter.1 member).1
        exact bounded m ((List.dropWhile_sublist _).subset (found ▸ listed))
      split
      · exact .present whole
      split
      · exact .present (says_countingLoop known _)
      · exact itemsHeader_writes serves known comment among
  · exact .absent

omit serves in
/-- The parts of a loop are its children. -/
theorem mem_of_loopParts? {n body : Node} {header : List Node}
    (found : loopParts? n = some (header, body)) : header ⊆ n.children ∧ body ∈ n.children := by
  obtain ⟨group, first, same⟩ := Option.map_eq_some_iff.1 found
  cases same
  exact ⟨(List.takeWhile_sublist _).subset, List.mem_of_find?_eq_some first⟩

theorem settle_forStatement {n : Node} (neat : L.Neat n)
    (children : ∀ m ∈ n.children, L.Fits depth m) :
    Settle L depth s (forStatement c n) (forStatement d n) := by
  rw [forStatement, forStatement]
  split
  · next header body found =>
    obtain ⟨before, inside⟩ := mem_of_loopParts? found
    replace inside := children body inside
    have listed : ∀ m ∈ header, L.Fits depth m := fun m member => children m (before member)
    have written : L.Plain (Utf8.trim (cutEnd ";" (Utf8.trim (textOf header)))) :=
      (plain_textOf listed).of fun plain => (plain.trim.cutEnd rfl).trim
    dsimp only
    split
    · split
      · next clauses counted =>
        refine (arithmeticFrom_writes 0 (written.of (plain_countedHeader? counted))).bind
          fun text _ _ known => ?_
        exact (doGroup_writes serves neat.indent inside).bind fun group _ step given =>
          settle_statement (((known.lead step).of Utf8.spelled_trim).within (by decide) (by decide)
            |>.append given)
      · exact settle_giveUp neat _
    · refine (forHeader_writes serves neat children listed written).bind fun front t _ known => ?_
      cases front with
      | some front =>
        exact (doGroup_writes serves neat.indent inside).bind fun group _ step given =>
          settle_statement (.append ((known front rfl).lead step) given)
      | none => exact settle_giveUp neat _
  · exact settle_giveUp neat _

theorem loopCondition_writes (isUntil : Bool) {trimmed : List Node}
    (bounded : ∀ n ∈ trimmed, L.Fits depth n) :
    WritesText L s (loopCondition c isUntil trimmed) (loopCondition d isUntil trimmed) := by
  have source : L.Plain (Utf8.trim (textOf trimmed)) := (plain_textOf bounded).of Plain.trim
  have constant {t : CompileState} (b : Bool) : L.Says t (boolText b) := by
    cases b <;> exact .const (by decide)
  rw [loopCondition, loopCondition]
  split
  · exact .pure (constant _)
  split
  · exact .pure (constant _)
  split
  · next only single =>
    have here := bounded only (List.mem_filter.1 (single ▸ List.mem_singleton_self only)).1
    refine (serves.low .ifCondition here).bind fun id t _ low => ?_
    exact (Fragment.readOr_agrees serves.reads here.text _ (low.mono (by omega))).map
      fun _ _ _ known => .getD known (.marker source)
  · exact (log_agrees _ _ _).bind fun _ _ _ _ => .pure (.marker source)

theorem settle_whileStatement {n : Node} (neat : L.Neat n)
    (children : ∀ m ∈ n.children, L.Fits depth m) :
    Settle L depth s (whileStatement c n) (whileStatement d n) := by
  rw [whileStatement, whileStatement]
  split
  · next header body found =>
    obtain ⟨before, inside⟩ := mem_of_loopParts? found
    replace inside := children body inside
    refine (loopCondition_writes serves _ fun m member => ?_).bind fun condition _ _ known =>
      (doGroup_writes serves neat.indent inside).bind fun group _ step given =>
        settle_statement ((known.lead step).within (by decide) (by decide) |>.append given)
    exact children m (before (List.mem_filter.1 (mem_of_mem_trimSeparators member)).1)
  · exact settle_giveUp neat _

theorem settle_functionDefinition {n : Node} (neat : L.Neat n)
    (children : ∀ m ∈ n.children, L.Fits depth m) :
    Settle L depth s (functionDefinition c n) (functionDefinition d n) := by
  rw [functionDefinition, functionDefinition]
  split
  · next name body named found =>
    have name := (children name (List.mem_of_find?_eq_some named)).text
    have inside : L.Fits depth body := children body (List.mem_of_find?_eq_some found)
    refine (insideFunction_agree (Q := fun text t => L.Has t .makeScope ∧ L.Says t text) _
      (fun t => ?_)
      fun _ _ known => known).bind fun text t _ known => settle_statement ?_
    · exact (use_notes _).bind fun _ _ _ has => (block_writes serves _ neat.indent fun m member =>
        inside.child (insideBraces_subset _ member)).imp fun _ _ step given =>
          ⟨has.lead step, given⟩
    · have indent : L.Says t n.indent := .of_plain neat.indent
      exact Ledger.Says.within (.of_plain name) (by decide) (by decide) |>.append indent
        |>.followed (by decide) |>.append (.of_plain (name.of Js.plain_identifier))
        |>.append (.helper known.1 (by decide)) |>.append known.2 |>.followed (by decide)
        |>.append indent |>.followed (by decide)
  · exact settle_giveUp neat _

theorem settle_compound (context : Context) {n : Node} (neat : L.Neat n)
    (children : ∀ m ∈ n.children, L.Fits depth m) :
    Settle L depth s (compound c context n) (compound d context n) := by
  have trimmed : ∀ m ∈ (blockLead n.indent (insideBraces n.children)).2, L.Fits depth m :=
    fun m member => children m (insideBraces_subset _ (mem_of_mem_trimSeparators member))
  have lead := plain_blockLead neat.indent fun m member => children m (insideBraces_subset _ member)
  rw [compound, compound]
  dsimp only
  refine Agree.bind (Agree.mapM (R := fun (member : Node × FragmentId) t =>
      L.Low t (6 * depth + 5) member.2 ∧ L.Made t member.2 ∧ L.Plain member.1.text)
    (fun step known => ⟨known.1.lead step, known.2.1.lead step, known.2.2⟩) fun child listed t _ =>
      (serves.compile _ (trimmed child listed)).map fun id u _ returned =>
        ⟨returned.low.mono (by omega), returned.made, (trimmed child listed).text⟩)
    fun members t _ known => ?_
  have whole {u : CompileState} (step : L.Leads t u) (context : Context) :
      L.Rests u (6 * depth + 5)
        (.group members (blockLead n.indent (insideBraces n.children)).1 n.indent context) :=
    ⟨⟨fun member listed => (known.2 member listed).1.lead step, by simp [Recipe.call?]⟩,
      fun strict =>
      ⟨fun member listed => (known.2 member listed).2.2 strict, lead strict, neat.indent strict⟩⟩
  split
  · next id single =>
    obtain ⟨low, made, _⟩ := known.2 _ (List.mem_filter.1 (single ▸ List.mem_singleton_self _)).1
    refine (isFallback_same id).bind fun failed u step _ => ?_
    split
    · exact settle_new (List.forall_mem_singleton.2 (whole step _)) (by simp [isPlain])
    · refine new_returned (List.forall_mem_cons.2 ⟨whole step _, ?_⟩)
        (.same (.of_single .pureCommand (by decide) (by simp [Form.commands])) rfl rfl
          (made.lead step))
      simp only [List.forall_mem_cons]
      exact ⟨.of_within (low.lead step) rfl fun _ => trivial,
        .of_within (low.lead step) rfl fun _ => trivial, List.forall_mem_nil _⟩
  · exact settle_new (List.forall_mem_singleton.2 (whole (.refl t) _)) (by simp [isPlain])

end

section
variable (serves : ∀ e ≤ depth, Serves L e c d) {n : Node} (neat : L.Neat n)
  (children : ∀ m ∈ n.children, L.Fits depth m)
  (guarded : n.kind = .list → ∀ statement, guard? n = some statement → L.Fits depth statement)
include serves neat children guarded

/-- All branches of the compiler agree on a node when the compilers agree on what lies below. -/
theorem settle_branch (context : Context) :
    Settle L depth s (branch c n context) (branch d n context) := by
  have here : Serves L depth c d := serves depth (Nat.le_refl depth)
  have silence {s : CompileState} : Settle L depth s silence silence := by
    have nothing : L.Says s [] := .of_plain (.const .nil)
    exact settle_texts (by simp [isPlain, nothing])
  rw [branch, branch]
  split
  · exact (statements_writes here .program children).bind fun _ _ _ known => settle_statement known
  · exact settle_expression (.of_plain neat.text)
  · exact settle_comment neat
  · exact silence
  · exact settle_word neat
  · exact settle_number neat
  · exact settle_quotedText (neat.text.of fun plain => (plain.cutStart _).cutEnd rfl)
  · next kind => exact settle_quotedText fun strict => (neat strict).ansiValue kind
  · exact settle_literal (neat.text.of fun plain =>
      plain.subset (Shell.unescapeDoubleQuoted_subset _))
  · exact settle_string here children context
  · exact settle_concatenation here children context
  · exact settle_commandName here neat children context
  · exact settle_simpleExpansion neat children
  · exact settle_expansion here neat children context
  · exact settle_braceExpression neat
  · exact settle_array here children context
  · exact settle_commandSubstitution here neat children
  · exact settle_arithmeticExpansion neat
  · exact settle_assignment here context neat children
  · exact settle_assignments here context neat children
  · exact settle_declaration here context neat children
  · exact settle_unset neat children
  · exact settle_command here neat children context
  · exact settle_negated here neat children context
  · exact settle_testCommand here context neat children
  · exact settle_redirected here context neat children
  · exact settle_pipeline here neat children
  · next kind => exact settle_list serves context neat children (guarded kind)
  · exact settle_ifStatement here neat children
  · exact settle_forStatement here neat children
  · exact settle_forStatement here neat children
  · exact settle_whileStatement here neat children
  · exact settle_functionDefinition here neat children
  · exact settle_compound here context neat children
  · split
    · exact settle_statement (.const (by decide))
    split
    · exact silence
    · exact settle_giveUp neat _
  · exact settle_giveUp neat _

theorem settle_node (context : Context) : Settle L depth s (node c n context) (node d n context) :=
  (settle_branch serves neat children guarded context).recover fun _ _ _ =>
    (log_agrees _ _ _).bind fun _ _ _ _ => settle_fallback neat.text

end

/-- Compiling a node gives a fragment: a fault in its branch leaves a marker. -/
theorem run_node (n : Node) (context : Context) : ∃ id, (run s (node c n context)).1 = .ok id := by
  rw [node, run_tryCatch]
  split
  · next id t _ => exact ⟨id, rfl⟩
  · exact ⟨_, rfl⟩

end Compile

end ShellToDeno
