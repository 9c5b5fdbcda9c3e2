import ShellToDeno.Proofs.Compile.Calls

/-!
# Redirected statements, pipelines and lists

Each step agrees for two compilers that agree on the nodes below its own. A list is compiled
together with the lists among its sides, so there the compilers have to agree at every depth below.

A redirected statement and a list supply one form of a command each. A pipeline supplies two, its
command and its call; the segments that both are made of have been read when it is made, which is
what lets them agree. The name of the sink that appends to a file comes after its feature is noted.
-/
namespace ShellToDeno

open Text CompileState Arguments

variable {L : Ledger} {c d : Compiler} {s : CompileState} {depth : Nat}

theorem Dax.says_prepend? {innards call prepended : Text} (known : L.Says s innards)
    (given : L.Says s call) (found : Dax.prepend? innards call = some prepended) :
    L.Says s prepended := by
  obtain ⟨body, cut, rfl⟩ := Option.map_eq_some_iff.1 found
  exact .append (known.preceded (by decide)) (given.of fun spelled => spelled.cutStart? cut)

/-- The target of a clause is not too deep, and its texts are plain. -/
structure Redirection.Bounded (L : Ledger) (depth : Nat) (r : Redirection) : Prop where
  text : L.Plain r.text
  target : L.Fits depth r.target
  lead : L.Plain r.lead

theorem Redirection.bounded_of_ofChildren? {text descriptor operator before : Text}
    {nodes : List Node}
    {r : Redirection} (found : ofChildren? text descriptor operator before nodes = some r)
    (whole : L.Plain text) (passed : L.Plain before) (fits : ∀ n ∈ nodes, L.Fits depth n) :
    r.Bounded L depth := by
  induction nodes generalizing descriptor operator before with
  | nil => cases found
  | cons n rest ih =>
    obtain ⟨here, others⟩ := List.forall_mem_cons.1 fits
    have further : L.Plain (before ++ n.text) := passed.append here.text
    rw [ofChildren?] at found
    split at found
    · exact ih found further others
    split at found
    · exact ih found further others
    split at found
    · exact ih found further others
    split at found
    · cases found
    · cases found
      exact ⟨whole, here, passed⟩

/-- A sink whose text is accounted for. -/
structure PlacedSink.Says (L : Ledger) (s : CompileState) (placed : PlacedSink) : Prop where
  sink : L.Says s placed.sink.text
  clause : L.Plain placed.clause

/-- Sinks whose texts are accounted for. -/
structure Sinks.Says (L : Ledger) (s : CompileState) (sinks : Sinks) : Prop where
  output : ∀ placed ∈ sinks.output, placed.Says L s
  errors : ∀ placed ∈ sinks.errors, placed.Says L s

namespace Sinks.Says
variable {sinks : Sinks}

theorem lead {t : CompileState} (step : L.Leads s t) (known : sinks.Says L s) : sinks.Says L t where
  output placed given := ⟨(known.output placed given).sink.lead step,
    (known.output placed given).clause⟩
  errors placed given := ⟨(known.errors placed given).sink.lead step,
    (known.errors placed given).clause⟩

theorem put (known : sinks.Says L s) (streams : Streams) {placed : PlacedSink}
    (new : placed.Says L s) : (sinks.put streams placed).Says L s := by
  refine ⟨fun other given => ?_, fun other given => ?_⟩
  all_goals
    rw [Sinks.put] at given
    dsimp only at given
    split at given
  · cases given
    exact new
  · exact known.output other given
  · cases given
    exact new
  · exact known.errors other given

theorem methods {output errors : Option Sink} (first : ∀ sink ∈ output, L.Says s sink.text)
    (second : ∀ sink ∈ errors, L.Says s sink.text) : L.Says s (Sinks.methods output errors) := by
  have method {name : Text} (plain : Plain name) {stream : Option Sink}
      (given : ∀ sink ∈ stream, L.Says s sink.text) : L.Says s (Sinks.method name stream) := by
    cases stream with
    | none => exact .of_plain (.const .nil)
    | some sink =>
      exact Ledger.Says.within (.of_plain (.const plain)) (by decide) (by decide)
        |>.append (given sink rfl) |>.followed (by decide)
  exact .append (method (by decide) first) (method (by decide) second)

theorem review {follower followed : PlacedSink} (first : follower.Says L s)
    (second : followed.Says L s) : L.Says s (follower.review followed) := by
  have clause {placed : PlacedSink} (known : placed.Says L s) :
      L.Says s (Js.commentText placed.clause) :=
    Ledger.Says.of (.of_plain known.clause) Js.spelled_commentText
  rw [PlacedSink.review]
  split
  · exact (clause first).within (by decide) (by decide) |>.append (clause second)
      |>.followed (by decide)
  · exact .const (by decide)

theorem text (known : sinks.Says L s) : L.Says s sinks.text := by
  obtain ⟨output, errors⟩ := sinks
  have single {placed : PlacedSink} (here : placed.Says L s) :
      ∀ sink ∈ some placed.sink, L.Says s sink.text := by
    simpa using here.sink
  unfold Sinks.text
  split
  · next out err sameOut sameErr =>
    have first := known.output out sameOut
    have second := known.errors err sameErr
    split
    · exact methods (single first) (single second)
    split
    · exact .append (methods (single first) (single first)) (review second first)
    split
    · exact .append (methods (single second) (single second)) (review first second)
    · exact methods (single first) (single second)
  · refine methods (fun sink given => ?_) fun sink given => ?_
    · obtain ⟨placed, among, rfl⟩ := Option.map_eq_some_iff.1 given
      exact (known.output placed among).sink
    · obtain ⟨placed, among, rfl⟩ := Option.map_eq_some_iff.1 given
      exact (known.errors placed among).sink

end Sinks.Says

namespace Compile

/-- The parts of a redirected statement are its children and their clauses. -/
theorem mem_of_redirectedParts {inner found : Option Node} {clauses all : List Redirection}
    {nodes : List Node} (parts : RedirectedParts.ofChildren inner clauses nodes =
      .found found all) :
    (∀ n ∈ found, n ∈ inner ∨ n ∈ nodes) ∧
      ∀ r ∈ all, r ∈ clauses ∨ ∃ n ∈ nodes, Redirection.ofNode? n = some r := by
  induction nodes generalizing inner clauses with
  | nil =>
    cases parts
    exact ⟨fun n => .inl, fun r member => .inl (List.mem_reverse.1 member)⟩
  | cons n rest ih =>
    have wider {inner : Option Node}
        (among : ∀ m ∈ found, m ∈ inner ∨ m ∈ rest) : ∀ m ∈ found, m ∈ inner ∨ m ∈ n :: rest :=
      fun m member => (among m member).imp_right (List.mem_cons_of_mem n)
    have later {clauses : List Redirection}
        (among : ∀ r ∈ all, r ∈ clauses ∨ ∃ m ∈ rest, Redirection.ofNode? m = some r) :
        ∀ r ∈ all, r ∈ clauses ∨ ∃ m ∈ n :: rest, Redirection.ofNode? m = some r :=
      fun r member => (among r member).imp_right fun ⟨m, listed, clause⟩ =>
        ⟨m, List.mem_cons_of_mem n listed, clause⟩
    rw [RedirectedParts.ofChildren] at parts
    split at parts
    · split at parts
      · next r clause =>
        obtain ⟨first, second⟩ := ih parts
        refine ⟨wider first, fun other member => ?_⟩
        rcases later second other member with old | new
        · rcases List.mem_cons.1 old with rfl | old
          · exact .inr ⟨n, List.mem_cons_self, clause⟩
          · exact .inl old
        · exact .inr new
      · cases parts
    split at parts
    · cases parts
    split at parts
    · exact (ih parts).imp wider later
    · obtain ⟨first, second⟩ := ih parts
      refine ⟨fun m member => ?_, later second⟩
      rcases wider first m member with old | new
      · cases inner with
        | none => exact .inr (List.mem_cons.2 (.inl (Option.some.inj old).symm))
        | some => exact .inl old
      · exact .inr new

/-- The forms of a redirected command: its clauses stand in the command string, or they are methods
of its call. -/
inductive RedirectedForms : Fields → Prop where
  | command (innards call : Text) :
    RedirectedForms [(.redirectedCommand, .text innards), (.statement, .text call)]
  | call (call : Text) : RedirectedForms [(.redirectedCall, .text call), (.statement, .text call)]

namespace RedirectedForms
variable {fields : Fields}

theorem ladder (forms : RedirectedForms fields) (front : Fields)
    (others : ∀ entry ∈ front, entry.1 ∉ Form.commands) :
    Ladder (Fields.look (front ++ fields)) := by
  have first {P : Form × Recipe → Prop} : ∀ entry ∈ front, entry.1 ∈ Form.commands → P entry :=
    fun entry member listed => absurd listed (others entry member)
  cases forms with
  | command =>
    exact .of_single .redirectedCommand (by decide)
      (List.forall_mem_append.2 ⟨first, by simp [Form.commands]⟩)
  | call =>
    exact .of_single .redirectedCall (by decide)
      (List.forall_mem_append.2 ⟨first, by simp [Form.commands]⟩)

theorem decides (forms : RedirectedForms fields) : Decides fields.look := by
  cases forms <;> exact .derived rfl rfl rfl rfl

end RedirectedForms

theorem duplicateSink_writes (r : Redirection) :
    Agree L s (duplicateSink r) (duplicateSink r) fun sink t => L.Says t sink.text := by
  rw [duplicateSink]
  split
  · exact (use_notes _).bind fun _ _ _ _ => .pure (.const (by decide))
  · exact (use_notes _).bind fun _ _ _ _ => .pure (.const (by decide))

section
variable (serves : Serves L depth c d)
include serves

theorem redirectTarget_low (context : Context) {r : Redirection} (bounded : r.Bounded L depth) :
    Agree L s (redirectTarget c context r) (redirectTarget d context r)
      fun found t => ∀ id ∈ found, L.Low t (6 * depth + 2) id := by
  refine (convertOne_low serves context (by simpa using bounded.target)).bind
    fun found t _ low => ?_
  split
  · next id =>
    refine (isFallback_same id).bind fun failed u step _ => .pure fun other same => ?_
    split at same
    · cases same
    · cases same
      exact (low _ rfl).lead step
  · exact .pure (by simp)

theorem inlineRedirect_writes (context : Context) {r : Redirection} (bounded : r.Bounded L depth) :
    WritesAny L s (inlineRedirect c context r) (inlineRedirect d context r) := by
  rw [inlineRedirect, inlineRedirect]
  split
  · exact .absent
  refine (redirectTarget_low serves context bounded).bind fun found t _ low => ?_
  split
  · next id =>
    exact (argument_agrees serves.reads ((low id rfl).mono (by omega))).mapText fun _ _ _ known =>
      .append (.of_plain bounded.lead) known
  · exact .absent

theorem fileSink_writes (context : Context) {r : Redirection} (bounded : r.Bounded L depth) :
    Agree L s (fileSink c context r) (fileSink d context r)
      fun found t => ∀ sink ∈ found, L.Says t sink.text := by
  rw [fileSink, fileSink]
  split
  · exact .pure (by simpa [Sink.text] using Ledger.Says.const (by decide))
  refine (redirectTarget_low serves context bounded).bind fun found t _ low => ?_
  split
  · next id =>
    refine (serves.reads.read .value ((low id rfl).mono (by omega))).bind fun path u _ known => ?_
    cases path with
    | none => exact .pure (by simp)
    | some path =>
      have path := known path rfl
      dsimp only
      split
      · refine (use_notes _).bind fun _ v step has => .pure ?_
        simpa [Sink.text] using
          (Ledger.Says.helper has (by decide)).append (path.lead step) |>.followed (by decide)
      · refine (use_notes _).bind fun _ v step _ => .pure ?_
        simpa [Sink.text] using (path.lead step).within (by decide) (by decide)
  · exact .pure (by simp)

theorem sinkOf_writes (context : Context) {r : Redirection} (bounded : r.Bounded L depth) :
    Agree L s (sinkOf c context r) (sinkOf d context r)
      fun found t => ∀ entry ∈ found, L.Says t entry.2.text := by
  have file (streams : Streams) : Agree L s (do return (← fileSink c context r).map (streams, ·))
      (do return (← fileSink d context r).map (streams, ·))
      fun found t => ∀ entry ∈ found, L.Says t entry.2.text := by
    refine (fileSink_writes serves context bounded).map fun found t _ known entry given => ?_
    obtain ⟨sink, among, rfl⟩ := Option.map_eq_some_iff.1 given
    exact known sink among
  rw [sinkOf, sinkOf]
  dsimp only
  split
  · split
    · exact file _
    · exact .pure (by simp)
  split
  · split
    · exact .pure (by simp)
    · exact file _
  split
  · exact .pure (by simp)
  split
  · exact (duplicateSink_writes r).bind fun sink t _ known => .pure (by simpa using known)
  split
  · exact file _
  · exact .pure (by simp)

theorem sinksOf_writes (context : Context) (place : Nat) {sinks : Sinks} (known : sinks.Says L s)
    {clauses : List Redirection} (bounded : ∀ r ∈ clauses, r.Bounded L depth) :
    Agree L s (sinksOf c context place sinks clauses) (sinksOf d context place sinks clauses)
      fun found t => ∀ sinks ∈ found, sinks.Says L t := by
  induction clauses generalizing s place sinks with
  | nil => exact .pure (by simpa using known)
  | cons r rest ih =>
    obtain ⟨here, others⟩ := List.forall_mem_cons.1 bounded
    refine (sinkOf_writes serves context here).bind fun found t step given => ?_
    cases found with
    | none => exact .pure (by simp)
    | some entry => exact ih _ ((known.lead step).put _ ⟨given entry rfl, here.text⟩) others

theorem redirectedFields_forms (context : Context) {command : Text} (known : L.Says s command)
    {clauses : List Redirection} (bounded : ∀ r ∈ clauses, r.Bounded L depth) (level : Nat) :
    Agree L s (redirectedFields c context command clauses)
      (redirectedFields d context command clauses)
      fun found t => ∀ fields ∈ found,
        RedirectedForms fields ∧ ∀ entry ∈ fields, L.Rests t level entry.2 := by
  unfold redirectedFields
  extract_lets first second
  have forms {t : CompileState} (step : L.Leads s t) (inline : Option Text)
      (given : ∀ text ∈ inline, L.Says t text) : Agree L t (first inline) (second inline)
      fun found t => ∀ fields ∈ found,
        RedirectedForms fields ∧ ∀ entry ∈ fields, L.Rests t level entry.2 := by
    have front := known.lead step
    cases inline with
    | some clause =>
      have innards : L.Says t (command ++ " " ++ clause) :=
        .append (front.followed (by decide)) (given clause rfl)
      refine .pure fun fields same => Option.some.inj same ▸ ⟨.command _ _, ?_⟩
      simpa using And.intro innards innards.call
    | none =>
      have start : Sinks.Says L t ⟨none, none⟩ := ⟨by simp, by simp⟩
      refine (sinksOf_writes serves context 0 start bounded).bind fun found u more sinks => ?_
      cases found with
      | none => exact .pure (by simp)
      | some found =>
        have call : L.Says u (Dax.call command ++ found.text) :=
          .append (front.lead more).call (sinks found rfl).text
        refine .pure fun fields same => Option.some.inj same ▸ ⟨.call _, ?_⟩
        simpa using call
  split
  · exact (inlineRedirect_writes serves context (bounded _ List.mem_cons_self)).bind
      fun inline t step given => forms step inline given
  · rw [pure_bind, pure_bind]
    exact forms (.refl s) none (by simp)

theorem settle_redirectedStatement (context : Context) {n inner : Node} (neat : L.Neat n)
    {clauses : List Redirection} (here : L.Fits depth inner)
    (bounded : ∀ r ∈ clauses, r.Bounded L depth) :
    Settle L depth s (redirectedStatement c context n inner clauses)
      (redirectedStatement d context n inner clauses) := by
  refine (serves.compile context here).bind fun id t _ returned => ?_
  obtain ⟨low, made, _⟩ := returned.mono (show 6 * depth ≤ 6 * depth + 5 by omega)
  refine (isFallback_same id).bind fun failed u step _ => ?_
  replace low := low.lead step
  split
  · exact settle_fallback neat.text
  refine (serves.reads.read .chainedCommand low).bind fun found v more known => ?_
  replace step := step.trans more
  replace low := low.lead more
  cases found with
  | none => exact settle_giveUp neat _
  | some command =>
    refine (redirectedFields_forms serves context (known command rfl) bounded (6 * depth + 5)).bind
      fun found w more forms => ?_
    replace step := step.trans more
    replace low := low.lead more
    cases found with
    | none => exact settle_giveUp neat _
    | some fields =>
      obtain ⟨forms, rests⟩ := forms fields rfl
      refine (supplies_same id .condition).bind fun given x more _ => ?_
      replace low := low.lead more
      replace rests := fun entry member => (rests entry member).lead more
      have same : isLookup c inner = isLookup d inner := by rw [isLookup, isLookup, serves.registry]
      rw [same]
      split
      · refine new_returned (List.forall_mem_append.2 ⟨?_, rests⟩)
          (.same (forms.ladder _ (by simp [Form.commands])) rfl rfl (made.lead (step.trans more)))
        simp only [List.forall_mem_cons]
        exact ⟨.of_within low rfl fun _ => trivial, .of_within low rfl fun _ => trivial,
          List.forall_mem_nil _⟩
      · exact new_returned rests (.plain (forms.ladder [] (by simp)) forms.decides)

theorem settle_redirected (context : Context) {n : Node} (neat : L.Neat n)
    (children : ∀ m ∈ n.children, L.Fits depth m) :
    Settle L depth s (redirected c context n) (redirected d context n) := by
  rw [redirected, redirected]
  split
  · exact settle_giveUp neat _
  · exact settle_giveUp neat _
  · exact settle_giveUp neat _
  · exact settle_giveUp neat _
  · next parts =>
    obtain ⟨here, clauses⟩ := mem_of_redirectedParts parts
    refine settle_redirectedStatement serves context neat (children _ ?_) fun r member => ?_
    · simpa using here _ rfl
    · obtain none | ⟨m, listed, clause⟩ := clauses r member
      · cases none
      · have child := children m listed
        exact Redirection.bounded_of_ofChildren? clause child.text (.const .nil) fun _ =>
          child.child

theorem pureCommands_known {compiled : List (Node × FragmentId)}
    (low : ∀ member ∈ compiled, L.Low s (6 * depth) member.2) :
    Agree L s (pureCommands c compiled) (pureCommands d compiled) fun found t =>
      ∀ commands, found = .ok commands →
        AllKnown (L.Known t) .pureCommand (compiled.map Prod.snd) commands ∧
          ∀ text ∈ commands, L.Says t text := by
  induction compiled generalizing s with
  | nil =>
    refine .pure ?_
    rintro _ ⟨⟩
    exact ⟨trivial, List.forall_mem_nil _⟩
  | cons member rest ih =>
    obtain ⟨here, others⟩ := List.forall_mem_cons.1 low
    refine (serves.reads.known .pureCommand (here.mono (by omega))).bind fun value t step here => ?_
    cases value with
    | none => exact .pure (by simp)
    | some value =>
      refine (ih fun other listed => (others other listed).lead step).bind
        fun found u more known => .pure fun commands same => ?_
      cases found with
      | error => cases same
      | ok others =>
        cases same
        obtain ⟨known, texts⟩ := known others rfl
        exact ⟨⟨here.1.lead more, known⟩,
          List.forall_mem_cons.2 ⟨(here.2 value rfl).lead more, texts⟩⟩

theorem segments_made {nodes : List Node} (bounded : ∀ n ∈ nodes, L.Fits depth n) :
    Agree L s (segments c nodes) (segments d nodes) fun found t => ∀ compiled ∈ found,
      compiled.length = nodes.length ∧
        ∀ member ∈ compiled, L.Low t (6 * depth) member.2 ∧ L.Made t member.2 := by
  induction nodes generalizing s with
  | nil => exact .pure (by simp)
  | cons n rest ih =>
    obtain ⟨here, others⟩ := List.forall_mem_cons.1 bounded
    refine (serves.compile .pipeline here).bind fun id t _ returned => ?_
    refine (isFallback_same id).bind fun failed u step _ => ?_
    split
    · exact .pure (by simp)
    refine (ih others).bind fun found v more known => .pure fun compiled same => ?_
    obtain ⟨others, rfl, rfl⟩ := Option.map_eq_some_iff.1 same
    obtain ⟨length, all⟩ := known others rfl
    replace step := step.trans more
    exact ⟨by simp [length],
      List.forall_mem_cons.2 ⟨⟨returned.low.lead step, returned.made.lead step⟩, all⟩⟩

/-- The segments of a pipeline have been read when it is made. -/
theorem settle_pipelineOf {n : Node} (neat : L.Neat n) {compiled : List (Node × FragmentId)}
    (several : 2 ≤ compiled.length)
    (made : ∀ member ∈ compiled, L.Low s (6 * depth) member.2 ∧ L.Made s member.2) :
    Settle L depth s (pipelineOf c n compiled) (pipelineOf d n compiled) := by
  obtain ⟨front, ⟨segment, last⟩, rfl⟩ : ∃ front final, compiled = front ++ [final] := by
    have nonempty : compiled ≠ [] := by rintro rfl; simp at several
    exact ⟨_, _, (List.dropLast_concat_getLast nonempty).symm⟩
  have here := made _ (List.mem_append_right front (List.mem_singleton_self _))
  rw [pipelineOf, pipelineOf, List.dropLast_concat, List.getLast?_concat]
  refine (pureCommands_known serves fun member listed =>
    (made member (List.mem_append_left _ listed)).1).bind fun found t step known => ?_
  split
  · exact (log_agrees _ _ _).bind fun _ _ _ _ => settle_fallback neat.text
  · next commands =>
    refine (serves.reads.known .redirectedCall ((here.1.lead step).mono (by omega))).bind
      fun value u more final => ?_
    dsimp only
    split
    · exact settle_giveUp neat _
    · next joined assembled =>
      obtain ⟨call, rfl, assembled⟩ := Option.bind_eq_some_iff.1 assembled
      have segments : ∀ id ∈ (front ++ [(segment, last)]).map Prod.snd,
          L.Low u (6 * depth + 5) id ∧ L.Made u id := by
        intro id listed
        obtain ⟨member, among, rfl⟩ := List.mem_map.1 listed
        obtain ⟨low, whole⟩ := made member among
        exact ⟨(low.lead (step.trans more)).mono (by omega), whole.lead (step.trans more)⟩
      rw [List.map_append, List.map_singleton] at segments ⊢
      obtain ⟨known, texts⟩ := known commands rfl
      have whole : L.Says u joined := Dax.says_prepend?
        (Ledger.Says.followed (.join (by decide) fun text member => (texts text member).lead more)
          (by decide)) (final.2 call rfl) assembled
      refine new_returned ?_ (.piped (.derived rfl rfl rfl rfl) rfl rfl rfl rfl rfl ?_
        (fun id listed => (segments id listed).2) (known.imp (Ledger.Known.lead more)) final.1
        assembled)
      · simp only [List.forall_mem_cons, Ledger.rests_text]
        exact ⟨whole, whole, .of_within (fun id listed => (segments id listed).1) rfl
          fun _ => trivial, List.forall_mem_nil _⟩
      · rintro alone
        simp_all

theorem settle_pipeline {n : Node} (neat : L.Neat n)
    (children : ∀ m ∈ n.children, L.Fits depth m) :
    Settle L depth s (pipeline c n) (pipeline d n) := by
  rw [pipeline, pipeline]
  split
  · exact settle_giveUp neat _
  dsimp only
  split
  · exact settle_giveUp neat _
  · next several =>
    refine (segments_made serves fun m member => children m (List.mem_filter.1 member).1).bind
      fun found t _ known => ?_
    split
    · exact settle_fallback neat.text
    · next compiled =>
      obtain ⟨length, made⟩ := known compiled rfl
      exact settle_pipelineOf serves neat (by omega) made

end

theorem ofNode?_context (context : Context) (n : Node) :
    Call.ofNode? context n = (Call.ofNode? .none n).map fun call => { call with context } := by
  unfold Call.ofNode?
  dsimp only
  split <;> rfl

/-- The script of a jump after a condition. -/
def jumpScript? (n : Node) : Option Text :=
  match listParts? n with
  | none => none
  | some (left, junction, right) =>
    if right.kind == .command && (Call.ofNode? .none right).any isJump then
      some (guardedScript n.indent left junction right.text)
    else none

/-- The first if statement of a script, if it can be read. -/
def ifOf? (script : Text) : Option Node :=
  match Node.parse script with
  | .error _ => none
  | .ok tree =>
    match tree.queryFirst "(if_statement)" with
    | .error _ => none
    | .ok found => found

/-- The if statement that a jump after a condition is rewritten to. -/
def guard? (n : Node) : Option Node := (jumpScript? n).bind ifOf?

theorem guardedJump_eq (context : Context) (n : Node) :
    guardedJump c context n = match jumpScript? n with
      | none => pure none
      | some script =>
        match Node.parse script with
        | .error (.broken fault) => throw fault
        | .error (.rejected diagnosis) => do
          log .debug "could not rewrite guarded control flow"
            [("error", diagnosis.render), ("text", n.text)]
          return none
        | .ok tree => do
          match ← tree.queryFirst "(if_statement)" with
          | none => return none
          | some statement => return some (← c.compile statement context) := by
  unfold guardedJump jumpScript?
  cases listParts? n with
  | none => rfl
  | some sides =>
  obtain ⟨left, junction, right⟩ := sides
  dsimp only
  rw [ofNode?_context, show (right.kind != .command) = !(right.kind == .command) from rfl]
  cases right.kind == .command with
  | false => rfl
  | true =>
  cases Call.ofNode? .none right with
  | none => rfl
  | some call =>
  have same : isJump { call with context } = isJump call := rfl
  rw [Option.map_some, Option.any_some]
  dsimp only
  rw [same]
  cases isJump call with
  | false => rfl
  | true =>
    generalize Node.parse = parse
    rfl

section
variable (serves : Serves L depth c d)
include serves

theorem guardedJump_returned (context : Context) {n : Node}
    (guarded : ∀ statement, guard? n = some statement → L.Fits depth statement) :
    Agree L s (guardedJump c context n) (guardedJump d context n)
      fun found t => ∀ id ∈ found, L.Returned t (6 * depth) id := by
  unfold guard? at guarded
  rw [guardedJump_eq, guardedJump_eq]
  split
  · exact .pure (by simp)
  next script found =>
  rw [found, Option.bind_some] at guarded
  unfold ifOf? at guarded
  split
  · exact .fault _
  · exact (log_agrees _ _ _).bind fun _ _ _ _ => .pure (by simp)
  · next tree parsed =>
    rw [parsed] at guarded
    dsimp only at guarded
    generalize tree.queryFirst "(if_statement)" = queried at guarded ⊢
    cases queried with
    | error fault => exact .fault fault
    | ok answer =>
      refine Agree.bind (P := fun found _ => found = answer) (.pure rfl) fun found t _ same => ?_
      subst same
      split
      · exact .pure (by simp)
      · refine (serves.compile context (guarded _ rfl)).bind fun id u _ returned => .pure ?_
        exact fun other same => Option.some.inj same ▸ returned

theorem joinedCommands_returned (rightmost : Bool) (junction : Junction) {left right : FragmentId}
    (lowLeft : L.Low s (6 * depth) left) (lowRight : L.Low s (6 * depth) right) :
    Agree L s (joinedCommands c rightmost junction left right)
      (joinedCommands d rightmost junction left right)
      fun found t => ∀ id ∈ found, L.Returned t (6 * depth + 6) id := by
  have joined {t : CompileState} {fields : Fields}
      (rests : ∀ entry ∈ fields, L.Rests t (6 * depth + 5) entry.2) (ladder : Ladder fields.look)
      (decides : Decides fields.look) :
      Agree L t (do return some (← new fields)) (do return some (← new fields))
        fun found u => ∀ id ∈ found, L.Returned u (6 * depth + 6) id :=
    (new_returned rests (.plain ladder decides)).map
      fun id u _ returned other same => Option.some.inj same ▸ returned
  refine (serves.reads.read .chainedCommand (lowLeft.mono (by omega))).bind fun l t step known => ?_
  replace lowRight := (lowRight.lead step).mono (show 6 * depth ≤ 6 * depth + 5 by omega)
  cases l with
  | none => exact .pure (by simp)
  | some l =>
    have front {u : CompileState} (step : L.Leads t u) :
        L.Says u (l ++ " " ++ junction.text ++ " ") := by
      have first := ((known l rfl).lead step).followed (b := " ") (by decide)
      cases junction
      · exact (first.followed (by decide)).followed (by decide)
      · exact (first.followed (by decide)).followed (by decide)
    refine (serves.reads.read .chainedCommand lowRight).bind fun r u step given => ?_
    cases r with
    | some r =>
      have innards := (front step).append (given r rfl)
      exact joined (by simpa using And.intro innards innards.call)
        (.of_single .chainedCommand (by decide) (by simp [Form.commands]))
        (.derived rfl rfl rfl rfl)
    | none =>
      dsimp only
      split
      · exact .pure (by simp)
      refine (serves.reads.read .redirectedCall (lowRight.lead step)).bind fun r v more given => ?_
      cases r with
      | none => exact .pure (by simp)
      | some r =>
        dsimp only
        split
        · exact .pure (by simp)
        · next call prepended =>
          have call := Dax.says_prepend? (front (step.trans more)) (given r rfl) prepended
          exact joined (by simpa using call)
            (.of_single .redirectedCall (by decide) (by simp [Form.commands]))
            (.derived rfl rfl rfl rfl)

theorem settle_joinSides {n : Node} (neat : L.Neat n) (rightmost native : Bool)
    (junction : Junction)
    {left right : FragmentId} (lowLeft : L.Low s (6 * depth) left)
    (lowRight : L.Low s (6 * depth) right) :
    Settle L depth s (joinSides c n rightmost native junction left right)
      (joinSides d n rightmost native junction left right) := by
  refine (isFallback_same left).bind fun failed t step _ => ?_
  refine (isFallback_same right).bind fun other u more _ => ?_
  replace lowLeft := lowLeft.lead (step.trans more)
  replace lowRight := lowRight.lead (step.trans more)
  extract_lets first second
  have joined {t : CompileState} (lowLeft : L.Low t (6 * depth) left)
      (lowRight : L.Low t (6 * depth) right) : Settle L depth t (first ()) (second ()) := by
    refine (serves.reads.read .condition (lowLeft.mono (by omega))).bind fun l u step known => ?_
    replace lowRight := (lowRight.lead step).mono (show 6 * depth ≤ 6 * depth + 5 by omega)
    refine (serves.reads.read .statement lowRight).bind fun r v more given => ?_
    split
    · next l r =>
      have condition : L.Says v l := (known l rfl).lead more
      have operator : L.Says v junction.text := by cases junction <;> exact .const (by decide)
      have whole : L.Says v ("(" ++ l ++ ") " ++ junction.text ++ " (" ++ r ++ ")") :=
        condition.within (by decide) (by decide) |>.append operator |>.followed (by decide)
          |>.append (given r rfl) |>.followed (by decide)
      refine new_returned ?_ (.plain
        (.of_single .chainedCommand (by decide) (by simp [Form.commands]))
        (.joined rfl rfl rfl (by simp [Form.commands]; exact ⟨rfl, rfl, rfl, rfl, rfl⟩)))
      simp only [List.forall_mem_cons, Ledger.rests_text]
      exact ⟨whole, ⟨⟨lowRight.lead more, by simp [Recipe.call?]⟩,
        fun strict => ⟨condition strict, operator strict⟩⟩, List.forall_mem_nil _⟩
    · exact settle_giveUp neat _
  split
  · exact settle_fallback neat.text
  split
  · refine (joinedCommands_returned serves rightmost junction lowLeft lowRight).bind
      fun found v step returned => ?_
    split
    · exact .pure (returned _ rfl)
    · exact joined (lowLeft.lead step) (lowRight.lead step)
  · refine Agree.bind (P := fun _ _ => True)
      ((serves.reads.read .chainedCommand (lowLeft.mono (by omega))).map fun _ _ _ _ => trivial)
      fun _ v step _ => ?_
    exact joined (lowLeft.lead step) (lowRight.lead step)

end

mutual

/-- A side that is a list again lies on the level of any other side. -/
theorem settle_chain {s : CompileState} {depth : Nat} (serves : ∀ e ≤ depth, Serves L e c d)
    (context : Context) (rightmost : Bool) (n : Node) (neat : L.Neat n)
    (children : ∀ m ∈ n.children, L.Fits depth m) :
    Settle L depth s (chain c context rightmost n) (chain d context rightmost n) := by
  match n with
  | ⟨kind, text, nodes, indent, start, stop⟩ =>
    rw [chain, chain]
    split
    · refine (chainSides_low serves context [false, rightmost] nodes children).bind
        fun ids t _ low => ?_
      split
      · next l r =>
        exact settle_joinSides (serves depth (Nat.le_refl depth)) neat _ _ _ (low l (by simp))
          (low r (by simp))
      · exact settle_giveUp neat _
    · exact settle_giveUp neat _

theorem chainSides_low {s : CompileState} {depth : Nat} (serves : ∀ e ≤ depth, Serves L e c d)
    (context : Context) (marks : List Bool) (nodes : List Node)
    (bounded : ∀ m ∈ nodes, L.Fits depth m) :
    Agree L s (chainSides c context marks nodes) (chainSides d context marks nodes)
      fun ids t => ∀ id ∈ ids, L.Low t (6 * depth) id := by
  match nodes with
  | [] => exact .pure (by simp)
  | n :: rest =>
    obtain ⟨here, others⟩ := List.forall_mem_cons.1 bounded
    rw [chainSides, chainSides]
    split
    · have side {t : CompileState} {id : FragmentId} (low : L.Low t (6 * depth) id) : Agree L t
          (do return id :: (← chainSides c context marks.tail rest))
          (do return id :: (← chainSides d context marks.tail rest))
          fun ids u => ∀ id ∈ ids, L.Low u (6 * depth) id := by
        refine (chainSides_low serves context marks.tail rest others).bind
          fun ids u step known => .pure ?_
        exact List.forall_mem_cons.2 ⟨low.lead step, known⟩
      dsimp only
      split
      · obtain ⟨e, le, children, lift⟩ := L.side here
        exact (settle_chain (fun e' le' => serves e' (Nat.le_trans le' le)) context _ n here.neat
          children).bind fun id t _ returned => side (lift returned.low)
      · exact ((serves depth (Nat.le_refl depth)).low .list here).bind fun id t _ low => side low
    · exact chainSides_low serves context marks rest others

end

theorem settle_list (serves : ∀ e ≤ depth, Serves L e c d) (context : Context) {n : Node}
    (neat : L.Neat n) (children : ∀ m ∈ n.children, L.Fits depth m)
    (guarded : ∀ statement, guard? n = some statement → L.Fits depth statement) :
    Settle L depth s (list c context n) (list d context n) := by
  refine (guardedJump_returned (serves depth (Nat.le_refl depth)) context guarded).bind
    fun found t _ returned => ?_
  split
  · exact .pure ((returned _ rfl).mono (by omega))
  · exact settle_chain serves context true n neat children

end Compile

end ShellToDeno
