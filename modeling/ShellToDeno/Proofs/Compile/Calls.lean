import ShellToDeno.Proofs.Compile.Words

/-!
# Commands and builtins

The words of a call lie below its command. Each builtin agrees for two compilers that agree on these
words, and so does the call of a function or of an external command. A command of any kind supplies
at most its pure form, so all its other forms of a command are derived from that one.

The builtins write a few capitalised names of the target. The name of the exit status comes after
its feature is noted, and that of the check for a command is left to the recipe that writes it.
-/
namespace ShellToDeno

open Text CompileState Arguments Compile

variable {L : Ledger} {c d : Compiler} {s : CompileState} {depth : Nat}

namespace Call

/-- The nodes that a command is converted from are not too deep, and its texts are plain. -/
structure Bounded (L : Ledger) (depth : Nat) (call : Call) : Prop where
  words : ∀ n ∈ call.nameNode :: call.arguments, L.Fits depth n
  node : L.Neat call.node
  name : L.Plain call.name
  assignments : L.Plain call.assignments

/-- The name and the arguments of a command are children of its node. -/
theorem mem_of_ofNode? {context : Context} {n : Node} {call : Call}
    (found : ofNode? context n = some call) : ∀ m ∈ call.nameNode :: call.arguments,
    m ∈ n.children := by
  unfold ofNode? at found
  dsimp only at found
  split at found
  · cases found
  · next parts =>
    cases found
    exact fun m member => List.mem_of_mem_drop (parts ▸ member)

theorem bounded_ofNode? {context : Context} {n : Node} {call : Call}
    (found : ofNode? context n = some call) (neat : L.Neat n)
    (children : ∀ m ∈ n.children, L.Fits depth m) : call.Bounded L depth := by
  have words := fun m member => children m (mem_of_ofNode? found m member)
  unfold ofNode? at found
  dsimp only at found
  split at found
  · cases found
  cases found
  refine ⟨words, neat, ?_, .flatMap fun m member => ?_⟩
  · dsimp only
    split
    · next only single =>
      have listed := (List.mem_filter.1 (single ▸ List.mem_singleton_self only)).1
      split
      · exact ((words _ List.mem_cons_self).child listed).text.of
          fun plain => plain.subset (Shell.unescapeWord_subset _)
      · exact .const .nil
    · exact .const .nil
  · have before := (List.takeWhile_sublist _).subset (List.mem_filter.1 member).1
    exact .append ((children m before).text.of Js.plain_templateInnards) (.const (by decide))

/-- The command that is looked up is an argument. -/
theorem mem_groups_of_lookupOperand? {call : Call} {operand : List Node}
    (found : call.lookupOperand? = some operand) : operand ∈ call.groups := by
  unfold Call.lookupOperand? at found
  split at found
  · split at found
    · next shape =>
      split at found
      · cases found
        simp [shape]
      · cases found
    · cases found
  split at found
  · split at found
    · next shape =>
      cases found
      simp [shape]
    · cases found
  · cases found

variable {call : Call} (bounded : call.Bounded L depth)
include bounded

theorem Bounded.arguments : ∀ n ∈ call.arguments, L.Fits depth n :=
  fun n member => bounded.words n (List.mem_cons_of_mem _ member)

theorem Bounded.group {group : List Node} (listed : group ∈ call.groups) :
    ∀ n ∈ group, L.Fits depth n :=
  fun n member => bounded.arguments n (mem_of_mem_groups listed member)

theorem Bounded.giveUp (reason : Text) :
    Settle L depth s (call.giveUp reason) (call.giveUp reason) := settle_giveUp bounded.node _

/-- A fragment that can be run as the command it comes from, besides what else it has. -/
theorem Bounded.new (fields : Fields) (rests : ∀ entry ∈ fields, L.Rests s (6 * depth + 5) entry.2)
    (others : ∀ entry ∈ fields, entry.1 ∉ Form.commands)
    (decides : Decides (Fields.look (fields ++ call.externalFields))) :
    Settle L depth s (new (fields ++ call.externalFields))
      (new (fields ++ call.externalFields)) := by
  refine new_returned (List.forall_mem_append.2 ⟨rests, ?_⟩)
    (.plain (.of_single .pureCommand (by decide) (List.forall_mem_append.2 ⟨?_, ?_⟩)) decides)
  · have fits : call.Fits L.Fits (6 * depth + 5) := ⟨depth, Nat.le_refl _, bounded.words⟩
    have rests : L.Rests s (6 * depth + 5) (.commandLine call) :=
      ⟨⟨trivial, by simpa [Recipe.call?] using fits⟩, bounded.assignments⟩
    simpa [externalFields] using rests
  · exact fun entry member listed => absurd listed (others entry member)
  · simp [externalFields]

theorem Bounded.external (serves : Serves L depth c d) :
    Settle L depth s (call.external c) (call.external d) := by
  refine (Fragment.commandLine_agrees serves bounded.words bounded.assignments).bind
    fun found t _ _ => ?_
  split
  · exact bounded.giveUp _
  · exact bounded.new [] (by simp) (by simp) (.derived rfl rfl rfl rfl)

omit bounded in
theorem value_writes (serves : Serves L depth c d) {group : List Node}
    (inside : ∀ n ∈ group, L.Fits depth n) :
    WritesAny L s (call.value c group) (call.value d group) := by
  refine (convertOne_low serves call.context inside).bind fun found t _ low => ?_
  split
  · next id => exact serves.reads.read .value ((low id rfl).mono (by omega))
  · exact .absent

end Call

namespace Compile
variable {call : Call}

theorem settle_loopControl (bounded : call.Bounded L depth) {keyword : Text}
    (plain : L.Plain keyword) :
    Settle L depth s (loopControl call keyword) (loopControl call keyword) := by
  rw [loopControl]
  split
  · exact settle_statement (.of_plain plain)
  · exact bounded.giveUp _

theorem settle_constant (result : Bool) : Settle L depth s (constant result) (constant result) := by
  have known {yes no : Text} (plain : Plain yes ∧ Plain no) :
      L.Says s (if result then yes else no) := by
    cases result
    · exact .of_plain (.const plain.2)
    · exact .of_plain (.const plain.1)
  refine new_returned (List.forall_mem_cons.2 ⟨?_, fun entry member => ?_⟩)
    (.plain (.of_single .pureCommand (by decide) (by simp [Form.commands]))
      (by cases result <;> exact .text rfl rfl))
  · exact Ledger.rests_text.2 (known (by decide))
  · obtain ⟨form, _, rfl⟩ := List.mem_map.1 member
    exact Ledger.rests_text.2 (known (by decide))

theorem echoEscape?_plain {b : UInt8} {text : Text} (found : echoEscape? b = some text) :
    Plain text := by
  obtain ⟨before, after, split, _⟩ := List.lookup_eq_some_iff.1 found
  have each : ∀ entry ∈ before ++ ([b], text) :: after, Plain entry.2 := by
    rw [← split]
    decide
  exact each ([b], text) (by simp)

theorem carries_echoEscapes (t : Text) : Carries t (echoEscapes t) := by
  fun_induction echoEscapes t with
  | case1 b rest text found inner =>
    exact .write 2 (by decide) (echoEscape?_plain found) inner
  | case2 b rest none inner => exact .keep inner
  | case3 b rest _ inner => exact .keep inner
  | case4 => exact .nil

theorem spelled_inlineNewlines {words : List Text} {t : Text} (spelled : Spelled words t) :
    Spelled words (inlineNewlines t) := by
  rw [inlineNewlines]
  split
  · exact (carries_replaceAll (by decide) (by decide) t).spelled spelled
  · exact spelled

/-- What has been read of the flags of `read`. -/
structure ReadOptions.Says (L : Ledger) (s : CompileState) (o : ReadOptions) : Prop where
  targets : ∀ t ∈ o.targets, L.Plain t
  prompt : L.Says s o.prompt
  warning : L.Says s o.warning

/-- One definition of an alias. -/
def AliasOutcome.Says (L : Ledger) (s : CompileState) : AliasOutcome → Prop
  | text statement => L.Says s statement
  | _ => True

theorem mem_of_mem_echoFlags {flags : EchoFlags} {groups : List (List Node)} {group : List Node}
    (member : group ∈ (echoFlags flags groups).2) : group ∈ groups := by
  induction groups generalizing flags with
  | nil => cases member
  | cons first rest ih =>
    rw [echoFlags] at member
    split at member
    · exact List.mem_cons_of_mem _ (ih member)
    · exact member

section
variable (serves : Serves L depth c d)
include serves

theorem settle_functionCall (bounded : call.Bounded L depth) :
    Settle L depth s (functionCall c call) (functionCall d call) := by
  refine (unify_low serves call.context bounded.arguments).bind fun unified t _ low => ?_
  refine (serves.reads.read .array (low.mono (by omega))).bind fun found u _ known => ?_
  cases found with
  | none => exact bounded.giveUp _
  | some array =>
    have passed : L.Says u (cutEnd "]" (cutStart "[" array)) :=
      (known array rfl).of fun spelled => (spelled.cutStart _).cutEnd rfl
    have invocation : L.Says u ("await " ++ Js.identifier call.name ++ "(" ++
        cutEnd "]" (cutStart "[" array) ++ ")") :=
      Ledger.Says.within (.of_plain (bounded.name.of Js.plain_identifier)) (by decide) (by decide)
        |>.append passed |>.followed (by decide)
    refine bounded.new _ ?_ (by simp [Form.commands]) (.texts rfl rfl (.status _))
    simp only [List.forall_mem_cons, Ledger.rests_text]
    exact ⟨invocation.within (by decide) (by decide), invocation.within (by decide) (by decide),
      invocation, List.forall_mem_nil _⟩

theorem aliasParts_low {rest : Text} (plain : L.Plain rest) {first : Node} {others : List Node}
    (inside : ∀ n ∈ first :: others, L.Fits depth n) :
    Agree L s (aliasParts c call rest others) (aliasParts d call rest others)
      fun ids t => ∀ id ∈ ids, L.Low t (6 * depth + 1) id := by
  obtain ⟨here, inside⟩ := List.forall_mem_cons.1 inside
  have following {t : CompileState} {front : List FragmentId}
      (low : ∀ id ∈ front, L.Low t (6 * depth + 1) id) : Agree L t
        (do return front ++ (← others.mapM (withLiteralBraces c call.context)))
        (do return front ++ (← others.mapM (withLiteralBraces d call.context)))
        fun ids u => ∀ id ∈ ids, L.Low u (6 * depth + 1) id := by
    refine Agree.bind (Agree.mapM_low fun n member _ _ =>
      (withLiteralBraces_returned serves call.context (inside n member)).imp
        fun _ _ _ returned => returned.low) fun ids u step known => .pure ?_
    exact List.forall_mem_append.2 ⟨fun id member => (low id member).lead step, known⟩
  rw [aliasParts, aliasParts]
  dsimp only
  split
  · exact following (List.forall_mem_nil _)
  · refine (serves.low call.context (L.leaf here plain)).bind fun id t _ low => following ?_
    simpa using low.mono (by omega)

theorem aliasDefinition_writes {group : List Node} (inside : ∀ n ∈ group, L.Fits depth n) :
    Agree L s (aliasDefinition c call group) (aliasDefinition d call group)
      fun found t => found.Says L t := by
  unfold aliasDefinition
  dsimp only
  split
  · exact .fault _
  next first others shape =>
  have opened : ∀ m ∈ first :: others, L.Fits depth m := by
    rw [← shape]
    split
    · have here := inside _ List.mem_cons_self
      split
      · exact fun m member => here.child member
      · simpa using here
    · exact inside
  have front := (opened first List.mem_cons_self).text
  split
  · exact .pure trivial
  next name rest cut =>
  obtain ⟨named, remains⟩ := subset_of_cut? cut
  have key : L.Says s name := .of_plain (front.of fun plain => plain.subset named)
  split
  · exact .pure trivial
  have assigned {t : CompileState} (step : L.Leads s t) {value : Text} (given : L.Says t value) :
      Agree L t (do
        use .aliases
        return .text ("aliases" ++ Js.propertyAccess name ++ " = " ++ value)) (do
        use .aliases
        return .text ("aliases" ++ Js.propertyAccess name ++ " = " ++ value))
        fun found t => AliasOutcome.Says L t found :=
    (use_notes _).bind fun _ u more _ => .pure
      (((key.lead (step.trans more)).of Js.spelled_propertyAccess).within (by decide) (by decide)
        |>.append (given.lead more))
  refine (aliasParts_low serves (front.of fun plain => plain.subset remains) opened).bind
    fun parts t step low => ?_
  split
  · exact assigned step (.const (by decide))
  refine (combine_low serves.reads (by omega) low).bind fun id u more low => ?_
  refine (serves.reads.read .value (low.mono (by omega))).bind fun found v last known => ?_
  cases found with
  | none => exact .pure trivial
  | some value => exact assigned ((step.trans more).trans last) (known value rfl)

theorem settle_aliasTexts (bounded : call.Bounded L depth) {groups : List (List Node)}
    (inside : ∀ group ∈ groups, ∀ n ∈ group, L.Fits depth n) {texts : List Text}
    (known : ∀ t ∈ texts, L.Says s t) :
    Settle L depth s (aliasTexts c call groups texts) (aliasTexts d call groups texts) := by
  induction groups generalizing s texts with
  | nil =>
    cases texts with
    | nil => exact bounded.giveUp _
    | cons =>
      exact settle_expression (.join (by decide) fun t member =>
        known t (List.mem_reverse.1 member))
  | cons group rest ih =>
    obtain ⟨here, others⟩ := List.forall_mem_cons.1 inside
    refine (aliasDefinition_writes serves here).bind fun found t step given => ?_
    cases found with
    | malformed => exact bounded.giveUp _
    | unvalued => exact bounded.giveUp _
    | text statement =>
      exact ih others (List.forall_mem_cons.2 ⟨given, fun t member => (known t member).lead step⟩)

theorem settle_returns (bounded : call.Bounded L depth) :
    Settle L depth s (returns c call) (returns d call) := by
  rw [returns, returns]
  split
  · exact settle_statement (.const (by decide))
  · next group shape =>
    have inside := bounded.group (shape ▸ List.mem_singleton_self group)
    refine (use_notes _).bind fun _ t _ has => ?_
    split
    · exact settle_statement (.helper has (by decide))
    split
    · exact settle_statement (.append (.helper has (by decide)) (.of_plain (plain_textOf inside)))
    refine (call.value_writes serves inside).bind fun found u step known => ?_
    cases found with
    | some value =>
      exact settle_statement (.append (.helper (has.lead step) (by decide)) (known value rfl))
    | none => exact bounded.giveUp _
  · exact bounded.giveUp _

theorem readOption_writes {o : ReadOptions} (clean : o.Says L s) {group : List Node}
    (inside : ∀ n ∈ group, L.Fits depth n) :
    Agree L s (readOption c call o group) (readOption d call o group)
      fun found t => ∀ o, found = .ok o → o.Says L t := by
  have word := plain_textOf inside
  rw [readOption, readOption]
  dsimp only
  split
  · split
    · refine (call.value_writes serves inside).bind fun found t step known => ?_
      cases found with
      | none => exact .pure (by simp)
      | some prompt =>
        refine .pure ?_
        rintro _ ⟨⟩
        exact ⟨clean.targets, known prompt rfl, clean.warning.lead step⟩
    split
    · refine .pure ?_
      rintro _ ⟨⟩
      exact ⟨clean.targets, clean.prompt,
        (Ledger.Says.of (.of_plain word) Js.spelled_commentText).within (by decide) (by decide)⟩
    · refine .pure ?_
      rintro _ ⟨⟩
      exact ⟨clean.targets, clean.prompt, clean.warning⟩
  · split
    · refine .pure ?_
      rintro _ ⟨⟩
      exact ⟨clean.targets, clean.prompt, clean.warning⟩
    split
    · exact .pure (by simp)
    · refine .pure ?_
      rintro _ ⟨⟩
      refine ⟨?_, clean.prompt, clean.warning⟩
      simpa [or_imp, forall_and] using And.intro clean.targets word

theorem readOptions_writes {o : ReadOptions} (clean : o.Says L s) {groups : List (List Node)}
    (inside : ∀ group ∈ groups, ∀ n ∈ group, L.Fits depth n) :
    Agree L s (readOptions c call o groups) (readOptions d call o groups)
      fun found t => ∀ o, found = .ok o → o.Says L t := by
  induction groups generalizing s o with
  | nil =>
    refine .pure ?_
    rintro _ ⟨⟩
    exact clean
  | cons group rest ih =>
    obtain ⟨here, others⟩ := List.forall_mem_cons.1 inside
    refine (readOption_writes serves clean here).bind fun found t _ known => ?_
    cases found with
    | ok o => exact ih (known o rfl) others
    | error reason => exact .pure (by simp)

theorem settle_readLine (bounded : call.Bounded L depth) :
    Settle L depth s (readLine c call) (readLine d call) := by
  have start : (⟨[], [], [], none⟩ : ReadOptions).Says L s :=
    ⟨List.forall_mem_nil _, .const (by decide), .const (by decide)⟩
  refine (readOptions_writes serves start fun group => bounded.group).bind fun found t _ known => ?_
  cases found with
  | error reason => exact bounded.giveUp _
  | ok o =>
    have clean := known o rfl
    dsimp only
    split
    · exact bounded.giveUp _
    have target : L.Says t (o.targets.head?.getD "REPLY") :=
      .getD (fun t member => .of_plain (clean.targets t (List.mem_of_head? member)))
      (.const (by decide))
    refine (env_writes target).bind fun access u step known => settle_expression ?_
    exact known.followed (by decide) |>.append (clean.prompt.lead step) |>.followed (by decide)
      |>.append (clean.warning.lead step)

theorem valuesOf_writes {groups : List (List Node)}
    (inside : ∀ group ∈ groups, ∀ n ∈ group, L.Fits depth n) :
    WritesAll L s (valuesOf c call groups) (valuesOf d call groups) := by
  induction groups generalizing s with
  | nil => exact .pure (by simp)
  | cons group rest ih =>
    obtain ⟨here, others⟩ := List.forall_mem_cons.1 inside
    refine (call.value_writes serves here).bind fun found t _ known => ?_
    cases found with
    | none => exact .pure (by simp)
    | some value => exact (ih others).consText (known value rfl)

theorem settle_pathFunction (bounded : call.Bounded L depth) {command : Text}
    (plain : L.Plain command) (most : Int) :
    Settle L depth s (pathFunction c call command most) (pathFunction d call command most) := by
  rw [pathFunction, pathFunction]
  dsimp only
  split
  · exact bounded.external serves
  refine (valuesOf_writes serves fun group => bounded.group).bind fun found t _ known => ?_
  cases found with
  | none => exact bounded.external serves
  | some values =>
    refine (Fragment.commandLine_agrees serves bounded.words bounded.assignments).bind
      fun line u step _ => ?_
    split
    · exact bounded.giveUp _
    refine (use_notes _).bind fun _ v more _ => ?_
    have joined : L.Says v (join ", " values) := .join (by decide) fun t member =>
      (known values rfl t member).lead (step.trans more)
    have text : L.Says v ("path." ++ command ++ "(" ++ join ", " values ++ ")") :=
      Ledger.Says.within (.of_plain plain) (by decide) (by decide) |>.append joined
        |>.followed (by decide)
    refine bounded.new _ ?_ (by simp [Form.commands]) (.derived rfl rfl rfl rfl)
    simp only [List.forall_mem_cons, Ledger.rests_text]
    exact ⟨text, text.substitution, List.forall_mem_nil _⟩

theorem echoPieces_writes {groups : List (List Node)}
    (inside : ∀ group ∈ groups, ∀ n ∈ group, L.Fits depth n) {pieces : List Text}
    (known : ∀ t ∈ pieces, L.Says s t) :
    WritesAll L s (echo.echoPieces c call groups pieces)
      (echo.echoPieces d call groups pieces) := by
  induction groups generalizing s pieces with
  | nil => exact .pure (by simpa using known)
  | cons group rest ih =>
    obtain ⟨here, others⟩ := List.forall_mem_cons.1 inside
    refine (convert_low serves call.context here).bind fun ids t step low => ?_
    refine (readEach_agrees serves.reads .templateInnards fun id member =>
      (low id member).mono (by omega)).bind fun found u more given => ?_
    cases found with
    | none => exact .pure (by simp)
    | some texts =>
      refine ih others (List.forall_mem_append.2 ⟨fun t member => ?_, given texts rfl⟩)
      exact (known t member).lead (step.trans more)

theorem settle_echo (bounded : call.Bounded L depth) :
    Settle L depth s (echo c call) (echo d call) := by
  have inside : ∀ group ∈ (echoFlags ⟨true, false⟩ call.groups).2, ∀ n ∈ group, L.Fits depth n :=
    fun group listed => bounded.group (mem_of_mem_echoFlags listed)
  rw [echo, echo]
  generalize echoFlags ⟨true, false⟩ call.groups = parsed at inside ⊢
  obtain ⟨flags, groups⟩ := parsed
  refine (echoPieces_writes serves inside (List.forall_mem_nil _)).bind fun found t _ known => ?_
  cases found with
  | none => exact bounded.giveUp _
  | some pieces =>
    dsimp only
    have joined : L.Says t (join " " pieces) := .join (by decide) (known pieces rfl)
    have escaped : L.Says t (if flags.escapes then echoEscapes (join " " pieces)
        else join " " pieces) := by
      split
      · exact joined.of (carries_echoEscapes _).spelled
      · exact joined
    generalize (if flags.escapes then echoEscapes (join " " pieces) else join " " pieces) = text
      at escaped
    have printed : L.Says t (inlineNewlines (if flags.newline then "console.log(`" ++ text ++ "`)"
        else "await Deno.stdout.write(new TextEncoder().encode(`" ++ text ++ "`))")) := by
      refine Ledger.Says.of ?_ spelled_inlineNewlines
      split
      · exact escaped.within (by decide) (by decide)
      · exact escaped.within (by decide) (by decide)
    refine bounded.new _ ?_ (by simp [Form.commands]) (.text rfl rfl)
    simp only [List.forall_mem_cons, Ledger.rests_text]
    exact ⟨printed, printed.within (by decide) (by decide), escaped, List.forall_mem_nil _⟩

theorem settle_exit (bounded : call.Bounded L depth) :
    Settle L depth s (exit c call) (exit d call) := by
  rw [exit, exit]
  split
  · exact settle_statement (.const (by decide))
  · next group shape =>
    have inside := bounded.group (shape ▸ List.mem_singleton_self group)
    dsimp only
    split
    · exact (use_notes _).bind fun _ _ _ has => settle_statement (.helper has (by decide))
    split
    · exact settle_statement
        (Ledger.Says.within (.of_plain (plain_textOf inside)) (by decide) (by decide))
    refine (call.value_writes serves inside).bind fun found t _ known => ?_
    cases found with
    | some value => exact settle_statement ((known value rfl).within (by decide) (by decide))
    | none => exact bounded.giveUp _
  · exact bounded.giveUp _

theorem settle_changeDirectory (bounded : call.Bounded L depth) :
    Settle L depth s (changeDirectory c call) (changeDirectory d call) := by
  have finish {t : CompileState} {target : Text} (known : L.Says t target) : Settle L depth t
      (new ((.statement, .text ("Deno.chdir(" ++ target ++ ")")) :: call.externalFields))
      (new ((.statement, .text ("Deno.chdir(" ++ target ++ ")")) :: call.externalFields)) :=
    bounded.new [_] (List.forall_mem_singleton.2
      (Ledger.rests_text.2 (known.within (by decide) (by decide)))) (by simp [Form.commands])
      (.derived rfl rfl rfl rfl)
  rw [changeDirectory, changeDirectory]
  dsimp only
  split
  · exact (env_writes (.const (by decide))).bind fun _ _ _ known => finish known
  · next group shape =>
    split
    · exact bounded.giveUp _
    refine (call.value_writes serves (bounded.group (shape ▸ List.mem_singleton_self group))).bind
      fun found t _ known => ?_
    cases found with
    | some target => exact finish (known target rfl)
    | none => exact bounded.giveUp _
  · exact bounded.giveUp _

theorem settle_commandLookup (bounded : call.Bounded L depth) :
    Settle L depth s (commandLookup c call) (commandLookup d call) := by
  rw [commandLookup, commandLookup]
  split
  · exact bounded.external serves
  · next operand looked =>
    have inside := bounded.group (Call.mem_groups_of_lookupOperand? looked)
    refine (call.value_writes serves inside).bind fun found t _ known => ?_
    cases found with
    | none => exact bounded.external serves
    | some value =>
      exact bounded.new _ (by simp [known value rfl]) (by simp [Form.commands]) (.check rfl rfl)

theorem settle_builtin (bounded : call.Bounded L depth) {b : Builtin}
    (plain : L.strict → b.IsPlain) :
    Settle L depth s (builtin c call b) (builtin d call b) := by
  match b, plain with
  | .alias, _ =>
    exact settle_aliasTexts serves bounded (fun group => bounded.group) (List.forall_mem_nil _)
  | .set, _ => exact bounded.giveUp _
  | .returns, _ => exact settle_returns serves bounded
  | .loopControl _, plain => exact settle_loopControl bounded plain
  | .read, _ => exact settle_readLine serves bounded
  | .constant _ result, _ => exact settle_constant result
  | .path _ most, plain => exact settle_pathFunction serves bounded plain most
  | .echo, _ => exact settle_echo serves bounded
  | .exit, _ => exact settle_exit serves bounded
  | .changeDirectory, _ => exact settle_changeDirectory serves bounded
  | .lookup _, _ => exact settle_commandLookup serves bounded

variable {n : Node} (neat : L.Neat n) (children : ∀ m ∈ n.children, L.Fits depth m)
include neat children

theorem settle_command (context : Context) :
    Settle L depth s (command c context n) (command d context n) := by
  rw [command, command]
  split
  · next call found =>
    have bounded := Call.bounded_ofNode? found neat children
    split
    · exact bounded.external serves
    rw [serves.registry]
    split
    · next b registered =>
      have plain := fun strict => serves.plain strict b (List.mem_of_find?_eq_some registered)
      exact (log_agrees _ _ _).bind fun _ _ _ _ => settle_builtin serves bounded plain
    · refine Agree.get.bind fun state t _ _ => ?_
      split
      · exact settle_functionCall serves bounded
      · exact bounded.external serves
  · exact settle_giveUp neat _

theorem settle_negated (context : Context) :
    Settle L depth s (negated c context n) (negated d context n) := by
  rw [negated, negated]
  split
  · next inner found =>
    have member := (List.mem_filter.1 (List.mem_of_find?_eq_some found)).1
    refine (serves.compile context (children inner member)).bind fun id t _ returned => ?_
    refine (isFallback_same id).bind fun failed u step _ => ?_
    split
    · exact settle_fallback neat.text
    refine new_returned ?_ (.swapped (.of_single .pureCommand (by decide) (by simp [Form.commands]))
      rfl rfl (returned.made.lead step))
    simpa [Ledger.rests_iff, Recipe.Rests, Recipe.Within, Recipe.call?, Recipe.Clean] using
      (returned.low.lead step).mono (by omega)
  · exact settle_giveUp neat _

end

end Compile

end ShellToDeno
