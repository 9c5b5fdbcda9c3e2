import ShellToDeno.Proofs.Compile.Calls

/-!
# Tests

Every reader of the grammar agrees for two compilers that agree on the words below a test. It gives
a condition together with its opposite: at the leaves by the form of the test, above them by
negating, parenthesizing or joining. The name of the check for a command comes after its feature is
noted, and all else in a condition is put together from the texts of the operands.
-/
namespace ShellToDeno

open Text CompileState Arguments

variable {L : Ledger} {c d : Compiler} {s t : CompileState} {depth : Nat}

/-- A condition that comes with its opposite, both of them accounted for. -/
structure Condition.Stands (L : Ledger) (s : CompileState) (condition : Condition) : Prop where
  opposite : Opposite condition.holds condition.fails
  holds : L.Says s condition.holds
  fails : L.Says s condition.fails

namespace Condition.Stands
variable {condition : Condition} {text : Text}

theorem ofText (known : L.Says s text) : (Condition.ofText text).Stands L s :=
  ⟨.negated text, known, known.within (by decide) (by decide)⟩

theorem negate (stands : condition.Stands L s) : condition.negate.Stands L s :=
  ⟨stands.opposite.symm, stands.fails, stands.holds⟩

theorem notEmpty (known : L.Says s text) : (Condition.notEmpty text).Stands L s :=
  ⟨.length text, known.followed (by decide), known.followed (by decide)⟩

theorem constant (b : Bool) : (Condition.constant b).Stands L s := by
  cases b
  · exact ⟨Opposite.constant.symm, .const (by decide), .const (by decide)⟩
  · exact ⟨.constant, .const (by decide), .const (by decide)⟩

end Condition.Stands

namespace TestWord

/-- The nodes of a word are not too deep. -/
def Bounded (L : Ledger) (depth : Nat) (word : TestWord) : Prop := ∀ n ∈ word.nodes, L.Fits depth n

theorem mem_of_mem_cutFrom {run nodes : List Node} {word : TestWord}
    (member : word ∈ cutFrom run nodes)
    {n : Node} (listed : n ∈ word.nodes) : n ∈ run ∨ n ∈ nodes := by
  have last {run : List Node}
      (member : word ∈ (if run.isEmpty then [] else [ofNodes run.reverse])) : n ∈ run := by
    split at member
    · cases member
    · rw [List.mem_singleton.1 member] at listed
      exact List.mem_reverse.1 listed
  induction nodes generalizing run with
  | nil => exact .inl (last member)
  | cons first rest ih =>
    rw [cutFrom] at member
    split at member
    · rcases List.mem_append.1 member with member | member
      · exact .inl (last member)
      rcases List.mem_cons.1 member with rfl | member
      · exact .inr (List.mem_cons.2 (.inl (List.mem_singleton.1 listed)))
      · rcases ih member with none | later
        · cases none
        · exact .inr (List.mem_cons_of_mem _ later)
    · rcases ih member with before | later
      · rcases List.mem_cons.1 before with rfl | before
        · exact .inr List.mem_cons_self
        · exact .inl before
      · exact .inr (List.mem_cons_of_mem _ later)

/-- The words of a test are made from its children. -/
theorem mem_of_mem_all {n m : Node} {word : TestWord} (member : word ∈ all n)
    (listed : m ∈ word.nodes) :
    m ∈ n.children := by
  obtain ⟨group, among, member⟩ := List.mem_flatMap.1 member
  rcases mem_of_mem_cutFrom member listed with none | inside
  · cases none
  · exact (List.mem_filter.1 (mem_of_mem_groups among inside)).1

end TestWord

namespace Compile

/-- Steps that agree and give a condition with its opposite, if any. -/
abbrev AgreeCondition (L : Ledger) (s : CompileState) (x y : Compile (Option Condition)) : Prop :=
  Agree L s x y fun found t => ∀ condition ∈ found, condition.Stands L t

/-- A condition comes with its opposite, and what is left after it is not too deep. -/
def Leaves (L : Ledger) (depth : Nat) (found : Option (Condition × List TestWord))
    (t : CompileState) :
    Prop :=
  ∀ read ∈ found, read.1.Stands L t ∧ ∀ w ∈ read.2, w.Bounded L depth

theorem leaves_none : Leaves L depth none t := by simp [Leaves]

theorem leaves_some {condition : Condition} {rest : List TestWord} (stands : condition.Stands L t)
    (bounded : ∀ w ∈ rest, w.Bounded L depth) : Leaves L depth (some (condition, rest)) t := by
  rintro _ ⟨⟩
  exact ⟨stands, bounded⟩

/-- Two readers of tests agree, and what they leave is among what they were given. -/
def ReadAlike (L : Ledger) (depth : Nat) (p q : TestReader) : Prop :=
  ∀ {s : CompileState} {words : List TestWord}, (∀ w ∈ words, w.Bounded L depth) →
    Agree L s (p words) (q words) (Leaves L depth)

theorem AgreeCondition.followed {x y : Compile (Option Condition)} (agrees : AgreeCondition L s x y)
    {rest : List TestWord} (bounded : ∀ w ∈ rest, w.Bounded L depth) :
    Agree L s (do return (← x).map (·, rest)) (do return (← y).map (·, rest)) (Leaves L depth) := by
  refine agrees.bind fun found t _ stands => .pure ?_
  cases found with
  | none => exact leaves_none
  | some condition => exact leaves_some (stands condition rfl) bounded

theorem foldComparison?_stands {left operator right : Text} {condition : Condition}
    (folded : foldComparison? left operator right = some condition) : condition.Stands L s := by
  simp only [foldComparison?, Option.bind_eq_bind, Option.bind_eq_some_iff, Option.pure_def,
    Option.some.injEq] at folded
  obtain ⟨_, _, _, _, b, _, rfl⟩ := folded
  exact .constant b

theorem joinedFrom_alike (operators : List Text) {joint : Text} (plain : Plain joint)
    {p q : TestReader}
    (alike : ReadAlike L depth p q) (fuel : Nat) {left : Condition} (stands : left.Stands L s)
    {words : List TestWord} (bounded : ∀ w ∈ words, w.Bounded L depth) :
    Agree L s (joinedFrom operators joint p fuel left words)
      (joinedFrom operators joint q fuel left words) (Leaves L depth) := by
  induction fuel generalizing s left words with
  | zero => exact .pure (leaves_some stands bounded)
  | succ fuel ih =>
    cases words with
    | nil => exact .pure (leaves_some stands bounded)
    | cons word rest =>
      rw [joinedFrom, joinedFrom]
      split
      · exact .pure (leaves_some stands bounded)
      refine (alike (List.forall_mem_cons.1 bounded).2).bind fun found t step left => ?_
      split
      · obtain ⟨right, after⟩ := left _ rfl
        exact ih (.ofText (.append (.append (stands.holds.lead step) (.of_plain (.const plain)))
          right.holds)) after
      · exact .pure leaves_none

theorem joinedTest_alike (operators : List Text) {joint : Text} (plain : Plain joint)
    {p q : TestReader}
    (alike : ReadAlike L depth p q) :
    ReadAlike L depth (joinedTest operators joint p) (joinedTest operators joint q) := by
  intro s words bounded
  refine (alike bounded).bind fun found t _ left => ?_
  split
  · exact joinedFrom_alike operators plain alike _ (left _ rfl).1 (left _ rfl).2
  · exact .pure leaves_none

theorem says_fileCheck? {operator value check : Text}
    (found : fileCheck? operator value = some check)
    (known : L.Says s value) : L.Says s check := by
  have existing {status property : Text} (spelled : Spelled commonWords status)
      (ended : Spelled commonWords property) :
      L.Says s (fileCheck?.existing value status property) :=
    known.within (by decide) (by decide) |>.append (.const spelled) |>.followed (by decide)
      |>.append known |>.followed (by decide) |>.append (.const ended) |>.followed (by decide)
  have access {right : Text} (spelled : Spelled commonWords right) :
      L.Says s (accessCheck right value) :=
    known.within (by decide) (by decide) |>.append (.const spelled) |>.followed (by decide)
  unfold fileCheck? at found
  split at found
  · cases found
    exact known.within (by decide) (by decide)
  split at found
  · cases found
    exact existing (by decide) (by decide)
  split at found
  · cases found
    exact existing (by decide) (by decide)
  split at found
  · cases found
    exact existing (by decide) (by decide)
  split at found
  · cases found
    exact existing (by decide) (by decide)
  split at found
  · cases found
    exact access (by decide)
  split at found
  · cases found
    exact access (by decide)
  split at found
  · cases found
    exact access (by decide)
  · cases found

theorem says_soleSubstitution? {value inner : Text} (found : soleSubstitution? value = some inner)
    (known : L.Says s value) : L.Says s inner := by
  unfold soleSubstitution? at found
  split at found
  · next cut =>
    obtain ⟨opened, front, back⟩ := Option.bind_eq_some_iff.1 cut
    split at found
    · cases found
    · cases found
      exact known.of fun spelled => (spelled.cutStart? front).cutEnd? (by decide) back
  · cases found

section
variable (serves : Serves L depth c d)
include serves

theorem operandText_writes {id : FragmentId} (low : L.Low s (6 * depth + 2) id) : WritesAny L s
    (do let some v ← c.read id .value | return none
        return some ((soleSubstitution? v).getD v))
    (do let some v ← d.read id .value | return none
        return some ((soleSubstitution? v).getD v)) := by
  refine (serves.reads.read .value (low.mono (by omega))).bind fun found t _ known => ?_
  cases found with
  | none => exact .absent
  | some v =>
    have whole := known v rfl
    exact .present (.getD (fun _ found => says_soleSubstitution? found whole) whole)

theorem operandValue_writes (context : Context) (numeric : Bool) {word : TestWord}
    (bounded : word.Bounded L depth) :
    WritesAny L s (operandValue c context numeric word) (operandValue d context numeric word) := by
  refine (convertOne_low serves context bounded).bind fun found t _ low => ?_
  split
  · next id =>
    refine (isFallback_same id).bind fun failed u step _ => ?_
    have low := (low id rfl).lead step
    dsimp only
    split
    · exact .absent
    split
    · refine (serves.reads.read .number (low.mono (by omega))).bind fun found v more known => ?_
      cases found with
      | some => exact .pure known
      | none => exact operandText_writes serves (low.lead more)
    · exact operandText_writes serves low
  · exact .absent

theorem binaryTest_agree (context : Context) {left right : TestWord} {operator : Text}
    {comparison : Comparison} (listed : (operator, comparison) ∈ comparisons)
    (first : left.Bounded L depth) (second : right.Bounded L depth) :
    AgreeCondition L s (binaryTest c context left comparison right)
      (binaryTest d context left comparison right) := by
  refine (operandValue_writes serves context _ first).bind fun l t _ knownLeft => ?_
  cases l with
  | none => exact .pure (by simp)
  | some l =>
    refine (operandValue_writes serves context _ second).bind fun r u step knownRight => ?_
    cases r with
    | none => exact .pure (by simp)
    | some r =>
      have each : ∀ entry ∈ comparisons, Plain entry.2.holds ∧ Plain entry.2.fails := by decide
      have compared {operator : Text} (plain : Plain operator) :
          L.Says u (l ++ " " ++ operator ++ " " ++ r) :=
        ((knownLeft l rfl).lead step).followed (by decide) |>.append (.of_plain (.const plain))
          |>.followed (by decide) |>.append (knownRight r rfl)
      have whole : Condition.Stands L u ⟨l ++ " " ++ comparison.holds ++ " " ++ r,
          l ++ " " ++ comparison.fails ++ " " ++ r⟩ :=
        ⟨.compared listed _ _, compared (each _ listed).1, compared (each _ listed).2⟩
      dsimp only
      split
      · refine .pure ?_
        cases folded : foldComparison? l comparison.holds r with
        | none => simpa using whole
        | some condition => simpa using foldComparison?_stands folded
      · exact .pure (by simpa using whole)

theorem matchTest_agree (context : Context) {left right : TestWord} (first : left.Bounded L depth)
    (second : right.Bounded L depth) :
    AgreeCondition L s (matchTest c context left right) (matchTest d context left right) := by
  refine (operandValue_writes serves context _ first).bind fun l t _ knownLeft => ?_
  cases l with
  | none => exact .pure (by simp)
  | some l =>
    refine (convertOne_low serves context second).bind fun found u step low => ?_
    split
    · next id =>
      refine (serves.reads.read .templateInnards ((low id rfl).mono (by omega))).bind
        fun pattern v more known => ?_
      cases pattern with
      | none => exact .pure (by simp)
      | some pattern =>
        have whole : L.Says v (l ++ ".match(new RegExp(`" ++ pattern ++ "`))") :=
          ((knownLeft l rfl).lead (step.trans more)).followed (by decide)
            |>.append (known pattern rfl) |>.followed (by decide)
        refine .pure ?_
        rintro _ ⟨⟩
        exact ⟨.matched _ _, whole, whole.preceded (by decide)⟩
    · exact .pure (by simp)

omit serves in
/-- What is handed down to children is handed down to the command that is looked up in a
substitution. -/
theorem of_lookupIn {P : Node → Prop} (handed : ∀ {n}, P n → ∀ c ∈ n.children, P c)
    {context : Context}
    {operand : List Node} {call : Call} {m : Node} (here : P m)
    (found : (if m.kind != .commandSubstitution then none else
      match m.significant.filter (fun child => child.kind == Kind.command) with
      | [command] => (Call.ofNode? context command).bind fun call =>
          call.lookupOperand?.bind fun operand => some (call, operand)
      | _ => none) = some (call, operand)) : ∀ n ∈ operand, P n := by
  split at found
  · cases found
  split at found
  · next command single =>
    obtain ⟨other, called, found⟩ := Option.bind_eq_some_iff.1 found
    obtain ⟨_, looked, found⟩ := Option.bind_eq_some_iff.1 found
    cases found
    have listed := single ▸ List.mem_singleton_self command
    have member : command ∈ m.children := (List.mem_filter.1 (List.mem_filter.1 listed).1).1
    intro n inside
    have argument := mem_of_mem_groups (Call.mem_groups_of_lookupOperand? looked) inside
    exact handed (handed here command member) n
      (Call.mem_of_ofNode? called n (List.mem_cons_of_mem _ argument))
  · cases found

omit serves in
theorem of_substitutedLookup? {P : Node → Prop} (handed : ∀ {n}, P n → ∀ c ∈ n.children, P c)
    {context : Context} {nodes operand : List Node} {call : Call}
    (found : substitutedLookup? context nodes = some (call, operand)) (each : ∀ n ∈ nodes, P n) :
    ∀ n ∈ operand, P n := by
  simp only [substitutedLookup?, Option.bind_eq_bind, Option.pure_def] at found
  split at found
  · next n =>
    have here : P n := each n List.mem_cons_self
    split at found
    · split at found
      · next only single =>
        have listed : only ∈ quotedParts n := single ▸ List.mem_singleton_self only
        exact of_lookupIn handed (handed here only (List.mem_filter.1 listed).1) found
      · cases found
    · exact of_lookupIn handed here found
  · cases found

theorem lookupTest_agree (context : Context) {word : TestWord} (bounded : word.Bounded L depth) :
    AgreeCondition L s (lookupTest c context word) (lookupTest d context word) := by
  rw [lookupTest, lookupTest]
  split
  · exact .pure (by simp)
  · next call operand found =>
    have inside := of_substitutedLookup? (fun above _ => Ledger.Fits.child above) found bounded
    refine (call.value_writes serves inside).bind fun value t _ known => ?_
    cases value with
    | none => exact .pure (by simp)
    | some value =>
      refine (use_notes _).bind fun _ u step has => .pure ?_
      have check : L.Says u ("hasCommand(" ++ value ++ ")") :=
        .followed (.append (.helper has (by decide)) ((known value rfl).lead step)) (by decide)
      rintro _ ⟨⟩
      exact ⟨.lookup _, check, check.preceded (by decide)⟩

theorem unaryTest_agree (context : Context) (operator : Text) {word : TestWord}
    (bounded : word.Bounded L depth) :
    AgreeCondition L s (unaryTest c context operator word) (unaryTest d context operator word) := by
  unfold unaryTest
  extract_lets first second
  have plain {t : CompileState} : AgreeCondition L t (first ()) (second ()) := by
    refine (operandValue_writes serves context _ bounded).bind fun v u _ known => ?_
    cases v with
    | none => exact .pure (by simp)
    | some v =>
      have value := known v rfl
      dsimp only
      split
      · exact .pure (by simpa using Condition.Stands.notEmpty value)
      split
      · exact .pure (by simpa using (Condition.Stands.notEmpty value).negate)
      refine (use_notes _).bind fun _ w step _ => .pure fun condition same => ?_
      obtain ⟨check, found, rfl⟩ := Option.map_eq_some_iff.1 same
      exact .ofText (says_fileCheck? found (value.lead step))
  split
  · refine (lookupTest_agree serves context bounded).bind fun found t _ stands => ?_
    split
    · next check =>
      refine .pure fun condition same => ?_
      cases same
      split
      · exact (stands check rfl).negate
      · exact stands check rfl
    · exact plain
  · exact plain

theorem operandTest_alike (context : Context) :
    ReadAlike L depth (operandTest c context) (operandTest d context) := by
  have single {s : CompileState} {word : TestWord} {rest : List TestWord}
      (here : word.Bounded L depth)
      (bounded : ∀ w ∈ rest, w.Bounded L depth) :
      Agree L s (operandTest.single c context word rest) (operandTest.single d context word rest)
        (Leaves L depth) := by
    refine (operandValue_writes serves context _ here).bind fun v t _ known => .pure ?_
    cases v with
    | none => exact leaves_none
    | some v => exact leaves_some (.notEmpty (known v rfl)) bounded
  intro s words bounded
  unfold operandTest
  split
  · exact .pure leaves_none
  · exact single (bounded _ List.mem_cons_self) (List.forall_mem_nil _)
  · simp only [List.forall_mem_cons] at bounded
    obtain ⟨first, second, rest⟩ := bounded
    split
    · next found =>
      obtain ⟨before, others, table, _⟩ := List.lookup_eq_some_iff.1 found
      obtain ⟨right, after⟩ := List.forall_mem_cons.1 rest
      have listed := table ▸ List.mem_append_right _ (.head _)
      exact (binaryTest_agree serves context listed first right).followed after
    · obtain ⟨right, after⟩ := List.forall_mem_cons.1 rest
      exact (matchTest_agree serves context first right).followed after
    · split
      · exact (unaryTest_agree serves context _ second).followed rest
      · exact single first (List.forall_mem_cons.2 ⟨second, rest⟩)

theorem primaryTest_alike (context : Context) {p q : TestReader} (alike : ReadAlike L depth p q) :
    ReadAlike L depth (primaryTest c context p) (primaryTest d context q) := by
  intro s words bounded
  cases words with
  | nil => exact .pure leaves_none
  | cons word rest =>
    rw [primaryTest, primaryTest]
    split
    · refine (alike (List.forall_mem_cons.1 bounded).2).bind fun found t _ left => ?_
      split
      · split
        · obtain ⟨stands, bounded⟩ := left _ rfl
          exact .pure (leaves_some ⟨.parenthesized stands.opposite,
            stands.holds.within (by decide) (by decide), stands.fails⟩
            (List.forall_mem_cons.1 bounded).2)
        · exact .pure leaves_none
      · exact .pure leaves_none
    · exact operandTest_alike serves context bounded

theorem notTest_alike (context : Context) {p q : TestReader} (alike : ReadAlike L depth p q) :
    ReadAlike L depth (notTest c context p) (notTest d context q) := by
  intro s words bounded
  induction words generalizing s with
  | nil => exact .pure leaves_none
  | cons word rest ih =>
    rw [notTest, notTest]
    split
    · refine (ih (List.forall_mem_cons.1 bounded).2).bind fun found t _ left => .pure ?_
      cases found with
      | none => exact leaves_none
      | some read => exact leaves_some (left read rfl).1.negate (left read rfl).2
    · exact primaryTest_alike serves context alike bounded

theorem orTest_alike (context : Context) (fuel : Nat) :
    ReadAlike L depth (orTest c context fuel) (orTest d context fuel) := by
  induction fuel with
  | zero => exact fun _ => .pure leaves_none
  | succ fuel ih =>
    exact joinedTest_alike _ (by decide)
      (joinedTest_alike _ (by decide) (notTest_alike serves context ih))

theorem testCondition_agree (context : Context) {words : List TestWord}
    (bounded : ∀ w ∈ words, w.Bounded L depth) :
    AgreeCondition L s (testCondition c context words) (testCondition d context words) := by
  rw [testCondition, testCondition]
  split
  · exact .pure (by simp)
  refine (orTest_alike serves context _ bounded).bind fun found t _ left => ?_
  split
  · refine .pure ?_
    rintro _ ⟨⟩
    exact (left _ rfl).1
  · exact .pure (by simp)

theorem settle_testCommand (context : Context) {n : Node} (neat : L.Neat n)
    (children : ∀ m ∈ n.children, L.Fits depth m) :
    Settle L depth s (testCommand c context n) (testCommand d context n) := by
  have innards {t : CompileState} : L.Says t (Js.templateInnards n.text) :=
    .of_plain (neat.text.of Js.plain_templateInnards)
  rw [testCommand, testCommand]
  split
  · next body cut =>
    have plain : L.Plain body := neat.text.of fun plain => by
      obtain ⟨opened, front, back⟩ := Option.bind_eq_some_iff.1 cut
      exact (((Spelled.of_plain plain).cutStart? front).cutEnd? (by decide) back).plain
    refine (arithmeticFrom_writes 0 plain).bind fun text t _ known => ?_
    have trimmed : L.Says t (Utf8.trim text) := known.of Utf8.spelled_trim
    have grouped : L.Says t ("(" ++ Utf8.trim text ++ ")") := trimmed.within (by decide) (by decide)
    exact new_returned (by simpa using And.intro trimmed grouped)
      (.plain (.of_single .pureCommand (by decide) (by simp [Form.commands])) (.text rfl rfl))
  · refine (testCondition_agree serves context fun word member m listed =>
      children m (TestWord.mem_of_mem_all member listed)).bind fun found t _ known => ?_
    cases found with
    | some condition =>
      have stands := known condition rfl
      exact new_returned (by simp [stands.holds, stands.fails, innards])
        (.plain (.of_single .pureCommand (by decide) (by simp [Form.commands]))
          (.texts rfl rfl stands.opposite))
    | none =>
      exact (log_agrees _ _ _).bind fun _ u _ _ =>
        new_returned (by simp [Ledger.Says.marker neat.text, innards])
          (.plain (.of_single .pureCommand (by decide) (by simp [Form.commands])) (.text rfl rfl))

end

end Compile

end ShellToDeno
