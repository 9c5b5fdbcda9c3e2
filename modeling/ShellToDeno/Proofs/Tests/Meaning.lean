import ShellToDeno.Proofs.Tests.Grammar
import ShellToDeno.Proofs.Tests.Exact
import ShellToDeno.Proofs.Quoting.CommandLine
import ShellToDeno.Compile.Node

/-!
# The meaning of tests

Each reader of tests gives a condition that means what the grammar reads
(`Compile.testCondition_means`). The readers are taken in the order of the grammar, operands first;
operands themselves are whatever the compiler makes of them.
-/
namespace ShellToDeno

open Test

/-! The table of comparisons. -/

/-- An operator of the table is one between operands, and both of its spellings say so. -/
structure Comparison.Means (operator : Text) (c : Comparison) (r : Relation) : Prop where
  listed : operators.lookup operator = some (r, c.numeric)
  holds : Js.relations.lookup c.holds = some r
  fails : Js.relations.lookup c.fails = some r.opposite

instance (operator : Text) (c : Comparison) (r : Relation) : Decidable (c.Means operator r) :=
  decidable_of_iff (operators.lookup operator = some (r, c.numeric) ∧
    Js.relations.lookup c.holds = some r ∧ Js.relations.lookup c.fails = some r.opposite)
    ⟨fun ⟨a, b, c⟩ => ⟨a, b, c⟩, fun ⟨a, b, c⟩ => ⟨a, b, c⟩⟩

theorem mem_comparisons {operator : Text} {c : Comparison}
    (found : Compile.comparisons.lookup operator = some c) :
    (operator, c) ∈ Compile.comparisons := by
  obtain ⟨before, after, split, _⟩ := List.lookup_eq_some_iff.1 found
  simp [split]

theorem comparison_means {operator : Text} {c : Comparison}
    (found : Compile.comparisons.lookup operator = some c) : ∃ r, c.Means operator r := by
  have all : ∀ entry ∈ Compile.comparisons,
      entry.2.Means entry.1 ((Js.relations.lookup entry.2.holds).getD .equal) := by decide +kernel
  exact ⟨_, all _ (mem_comparisons found)⟩

theorem lookup_operators (operator : Text) :
    (operators.lookup operator).isSome = (Compile.comparisons.lookup operator).isSome := by
  have keys : operators.map Prod.fst = Compile.comparisons.map Prod.fst := rfl
  have named {β : Type} (l : List (Text × β)) :
      (l.lookup operator).isSome ↔ operator ∈ l.map Prod.fst := by
    rw [List.lookup_isSome_iff, List.mem_map]
    simp only [beq_iff_eq, @eq_comm Text operator]
  rw [Bool.eq_iff_iff, named, named, keys]

/-- Integers that are read exactly are compared as what they are. -/
theorem compareNumbers_steps {operator : Text} {c : Comparison} {r : Relation}
    (found : Compile.comparisons.lookup operator = some c) (means : c.Means operator r)
    (numeric : c.numeric) {k : Nat} (positive : 0 < k) (m n : Int) :
    Compile.compareNumbers c.holds (.finite (m * k)) (.finite (n * k)) = some (r.holds m n) := by
  have same := means.holds
  have member := mem_comparisons found
  simp only [Compile.comparisons, List.mem_cons, Prod.mk.injEq, List.not_mem_nil,
    or_false] at member
  obtain ⟨-, rfl⟩ | ⟨-, rfl⟩ | ⟨-, rfl⟩ | ⟨-, rfl⟩ | ⟨-, rfl⟩ | ⟨-, rfl⟩ | ⟨-, rfl⟩ | ⟨-, rfl⟩ |
    ⟨-, rfl⟩ | ⟨-, rfl⟩ | ⟨-, rfl⟩ := member
  iterate 5 cases numeric
  all_goals
    cases same
    refine congrArg some ?_
    simp only [Double.equal_steps positive, Double.less_steps positive, Relation.holds]
  · rw [decide_not]
  · rw [← Bool.decide_or, decide_eq_decide]
    omega
  · rw [← Bool.decide_or, decide_eq_decide]
    omega

/-- Two number literals are compared at once, which leaves a constant. -/
theorem Test.Emits.folded {operator : Text} {c : Comparison} {r : Relation}
    (found : Compile.comparisons.lookup operator = some c) (means : c.Means operator r)
    (numeric : c.numeric) {a b : Text} {condition : Condition}
    (folded : Compile.foldComparison? a c.holds b = some condition) :
    Emits .primary condition (.compare r c.numeric a b) := by
  simp only [Compile.foldComparison?, Option.bind_eq_bind, Option.bind_eq_some_iff, Option.pure_def,
    Option.some.injEq] at folded
  obtain ⟨x, left, y, right, outcome, compared, rfl⟩ := folded
  have text (o : Bool) : (Condition.constant o).holds = Js.render [.constant o] ∧
      (Condition.constant o).fails = Js.render [.constant !o] := by cases o <;> decide
  refine ⟨[.constant outcome], [.constant !outcome], (text _).1, (text _).2,
    fun α _ I exact small => ?_⟩
  obtain ⟨smallLeft, smallRight⟩ := small numeric
  obtain ⟨m, readLeft⟩ := Option.isSome_iff_exists.1 (smallLeft (by simp [left]))
  obtain ⟨n, readRight⟩ := Option.isSome_iff_exists.1 (smallRight (by simp [right]))
  rw [Double.read?_integer readLeft, Option.some_inj] at left
  rw [Double.read?_integer readRight, Option.some_inj] at right
  have same : r.holds m n = outcome := by
    rw [← left, ← right,
      compareNumbers_steps found means numeric (Nat.two_pow_pos 1074)] at compared
    exact Option.some_inj.1 compared
  rw [truth, exact.holds readLeft readRight, same]
  exact ⟨(Js.IsFactor.constant outcome).conjunction, (Js.IsFactor.constant !outcome).conjunction⟩

namespace Compile
variable {c : Compiler} {context : Context} {s t : CompileState}

/-! Tests of one or two operands. -/

theorem binaryTest_emits {operator : Text} {comparison : Comparison} {r : Relation}
    (found : comparisons.lookup operator = some comparison) (means : comparison.Means operator r)
    {left right : TestWord} {condition : Condition}
    (ran : run s (binaryTest c context left comparison right) = (.ok (some condition), t)) :
    ∃ a b, Operand c context comparison.numeric left a ∧
      Operand c context comparison.numeric right b ∧
      Emits .primary condition (.compare r comparison.numeric a b) := by
  obtain ⟨l, u, ranLeft, ran⟩ := of_run_bind ran
  cases l with
  | none => cases ran
  | some a =>
    obtain ⟨r, v, ranRight, ran⟩ := of_run_bind ran
    cases r with
    | none => cases ran
    | some b =>
      refine ⟨a, b, ⟨_, _, ranLeft⟩, ⟨_, _, ranRight⟩, ?_⟩
      have plain := Emits.compared means.holds means.fails comparison.numeric a b
      dsimp only at ran
      split at ran
      · next numeric =>
        cases ran
        cases folded : foldComparison? a comparison.holds b with
        | some condition => exact .folded found means numeric folded
        | none => exact plain
      · cases ran
        exact plain

theorem matchTest_emits {left right : TestWord} {condition : Condition}
    (ran : run s (matchTest c context left right) = (.ok (some condition), t)) :
    ∃ a pattern, Operand c context false left a ∧ Pattern c context right pattern ∧
      Emits .primary condition (.check (.matches a pattern)) := by
  obtain ⟨l, u, ranLeft, ran⟩ := of_run_bind ran
  cases l with
  | none => cases ran
  | some a =>
    obtain ⟨found, v, ranRight, ran⟩ := of_run_bind ran
    cases found with
    | none => cases ran
    | some id =>
      obtain ⟨found, w, read, ran⟩ := of_run_bind ran
      cases found with
      | none => cases ran
      | some pattern =>
        cases ran
        exact ⟨a, pattern, ⟨_, _, ranLeft⟩, ⟨_, _, _, _, ranRight, read⟩,
          .check (.matches a pattern)⟩

theorem lookupTest_emits {word : TestWord} {condition : Condition}
    (ran : run s (lookupTest c context word) = (.ok (some condition), t)) :
    ∃ name, Lookup c context word (some name) ∧
      Emits .primary condition (.check (.command name)) := by
  rw [lookupTest] at ran
  split at ran
  · cases ran
  · next call operand looked =>
    obtain ⟨found, u, value, ran⟩ := of_run_bind ran
    cases found with
    | none => cases ran
    | some name =>
      cases ran
      exact ⟨name, ⟨call, operand, _, _, looked, value⟩, .check (.command name)⟩

/-- Where no lookup is read, there is none or its command has no name. -/
theorem lookupTest_none {word : TestWord}
    (ran : run s (lookupTest c context word) = (.ok none, t)) :
    substitutedLookup? context word.nodes = none ∨ Lookup c context word none := by
  rw [lookupTest] at ran
  split at ran
  · next none => exact .inl none
  · next call operand looked =>
    obtain ⟨found, u, value, ran⟩ := of_run_bind ran
    cases found with
    | none => exact .inr ⟨call, operand, _, _, looked, value⟩
    | some name => cases ran

theorem fileCheck?_isSome (operator value : Text) :
    (fileCheck? operator value).isSome ↔ operator ∈ fileOperators := by
  simp only [fileCheck?, fileOperators, List.mem_cons, Bool.or_eq_true, beq_iff_eq,
    List.not_mem_nil]
  split_ifs <;> simp only [Option.isSome_some, Option.isSome_none, Bool.false_eq_true] <;> tauto

theorem isUnary_iff (operator : Text) : isUnary operator ↔
    operator ∈ sizeOperators ++ fileOperators := by
  simp only [isUnary, Bool.or_eq_true, beq_iff_eq, fileCheck?_isSome, List.mem_append,
    sizeOperators, List.mem_cons, List.not_mem_nil, or_false]

theorem unaryTest_emits {operator word : TestWord} {rest : List TestWord} {condition : Condition}
    (alone : isInfix (operator :: word :: rest) = false)
    (ran : run s (unaryTest c context operator.text word) = (.ok (some condition), t)) :
    ∃ tree, Reads c context .primary (operator :: word :: rest) tree rest ∧
      Emits .primary condition tree := by
  unfold unaryTest at ran
  extract_lets plain at ran
  have plainly {u : CompileState} (ran : run u (plain ()) = (.ok (some condition), t))
      (other : operator.text ∈ sizeOperators →
        substitutedLookup? context word.nodes = none ∨ Lookup c context word none) :
      ∃ tree, Reads c context .primary (operator :: word :: rest) tree rest ∧
        Emits .primary condition tree := by
    obtain ⟨value, v, valueRan, ran⟩ := of_run_bind ran
    cases value with
    | none => cases ran
    | some a =>
      have operand : Operand c context false word a := ⟨_, _, valueRan⟩
      dsimp only at ran
      split at ran
      · next size =>
        rw [beq_iff_eq] at size
        have mark : operator.text ∈ sizeOperators := by simp [size, sizeOperators]
        cases ran
        refine ⟨_, .size alone mark (other mark) operand, ?_⟩
        rw [Test.sized, if_neg (by rw [size]; decide)]
        exact .notEmpty a
      split at ran
      · next size =>
        rw [beq_iff_eq] at size
        have mark : operator.text ∈ sizeOperators := by simp [size, sizeOperators]
        cases ran
        refine ⟨_, .size alone mark (other mark) operand, ?_⟩
        rw [Test.sized, if_pos size]
        exact (Emits.notEmpty a).negate
      · obtain ⟨_, w, _, ran⟩ := of_run_bind ran
        cases checked : fileCheck? operator.text a with
        | none =>
          rw [checked] at ran
          cases ran
        | some text =>
          rw [checked] at ran
          cases ran
          have mark : operator.text ∈ fileOperators :=
            (fileCheck?_isSome _ a).1 (by simp [checked])
          refine ⟨_, .file alone mark operand, ?_⟩
          have emits := Emits.ofCheck (.file operator.text a)
          rwa [Js.checkText, checked] at emits
  split at ran
  · next size =>
    have mark : operator.text ∈ sizeOperators := by simpa [sizeOperators] using size
    obtain ⟨found, u, lookup, ran⟩ := of_run_bind ran
    cases found with
    | none => exact plainly ran fun _ => lookupTest_none lookup
    | some check =>
      obtain ⟨name, named, emits⟩ := lookupTest_emits lookup
      cases ran
      refine ⟨_, .command alone mark named, ?_⟩
      simpa using emits.sized operator.text
  · next size =>
    refine plainly ran fun mark => absurd ?_ size
    simpa [sizeOperators] using mark

/-- A reader gives conditions that mean what the grammar reads at a level. -/
def ReadsTest (c : Compiler) (context : Context) (level : Test.Level)
    (reader : TestReader) : Prop :=
  ∀ ⦃s t words found rest⦄, run s (reader words) = (.ok (some (found, rest)), t) →
    ∃ tree, Reads c context level words tree rest ∧ Emits level found tree

theorem of_run_map {α : Type} {x : Compile (Option α)} {rest after : List TestWord}
    {found : Condition}
    {f : α → Condition} (ran : run s (do return (← x).map fun v => (f v, rest)) =
      (.ok (some (found, after)), t)) :
    ∃ v, run s x = (.ok (some v), t) ∧ found = f v ∧ after = rest := by
  obtain ⟨result, u, first, ran⟩ := of_run_bind ran
  cases result with
  | none => cases ran
  | some v =>
    cases ran
    exact ⟨v, first, rfl, rfl⟩

theorem operandTest_reads {word : TestWord} {rest after : List TestWord} {found : Condition}
    (opening : word.text ∉ openings)
    (ran : run s (operandTest c context (word :: rest)) = (.ok (some (found, after)), t)) :
    ∃ tree, Reads c context .primary (word :: rest) tree after ∧ Emits .primary found tree := by
  have single (alone : isInfix (word :: rest) = false)
      (last : word.text ∈ sizeOperators ++ fileOperators → rest = [])
      (ran : run s (operandTest.single c context word rest) = (.ok (some (found, after)), t)) :
      ∃ tree, Reads c context .primary (word :: rest) tree after ∧ Emits .primary found tree := by
    obtain ⟨a, value, rfl, rfl⟩ := of_run_map ran
    exact ⟨_, .operand opening alone last ⟨_, _, value⟩, .notEmpty a⟩
  cases rest with
  | nil => exact single rfl (fun _ => rfl) ran
  | cons second rest =>
    unfold operandTest at ran
    dsimp only at ran
    split at ran
    · next comparison right after' listed =>
      obtain ⟨condition, tested, rfl, rfl⟩ := of_run_map ran
      obtain ⟨r, means⟩ := comparison_means listed
      obtain ⟨a, b, left, right, emits⟩ := binaryTest_emits listed means tested
      exact ⟨_, .compare opening means.listed left right, emits⟩
    · next marked _ =>
      obtain ⟨condition, tested, rfl, rfl⟩ := of_run_map ran
      obtain ⟨a, pattern, left, right, emits⟩ := matchTest_emits tested
      exact ⟨_, .matches opening (beq_iff_eq.1 marked) left right, emits⟩
    · next rest _ _ _ unlisted unmarked =>
      have alone : isInfix (word :: second :: rest) = false := by
        cases rest with
        | nil => rfl
        | cons right after =>
          have listed : comparisons.lookup second.text = none :=
            Option.eq_none_iff_forall_ne_some.2 fun comparison listed => unlisted _ _ _ listed rfl
          have marked : (second.text == ("=~" : Text)) = false :=
            Bool.eq_false_iff.2 fun marked => unmarked _ _ marked rfl
          simp [isInfix, lookup_operators, listed, marked]
      split at ran
      · obtain ⟨condition, tested, rfl, rfl⟩ := of_run_map ran
        exact unaryTest_emits alone tested
      · next unary => exact single alone (fun mark => absurd ((isUnary_iff _).2 mark) unary) ran

theorem primaryTest_reads {inner : TestReader} (reads : ReadsTest c context .or inner) :
    ReadsTest c context .primary (primaryTest c context inner) := by
  intro s t words found after ran
  cases words with
  | nil => cases ran
  | cons word rest =>
    rw [primaryTest] at ran
    split at ran
    · next opening =>
      replace opening : word.text ∈ openings := by simpa [openings] using opening
      obtain ⟨result, u, innerRan, ran⟩ := of_run_bind ran
      split at ran
      · next last rest =>
        split at ran
        · next closing =>
          replace closing : last.text ∈ closings := by simpa [closings] using closing
          cases ran
          obtain ⟨tree, read, emits⟩ := reads innerRan
          exact ⟨tree, .group opening read closing, emits.parenthesized⟩
        · cases ran
      · cases ran
    · next opening => exact operandTest_reads (by simpa [openings] using opening) ran

theorem notTest_reads {inner : TestReader} (reads : ReadsTest c context .or inner) :
    ReadsTest c context .not (notTest c context inner) := by
  intro s t words
  induction words generalizing s t with
  | nil =>
    intro found after ran
    cases ran
  | cons word rest ih =>
    intro found after ran
    rw [notTest] at ran
    split at ran
    · next mark =>
      obtain ⟨result, u, innerRan, ran⟩ := of_run_bind ran
      cases result with
      | none => cases ran
      | some result =>
        cases ran
        obtain ⟨tree, read, emits⟩ := ih innerRan
        exact ⟨_, .not (beq_iff_eq.1 mark) read, emits.negate⟩
    · next mark =>
      obtain ⟨tree, read, emits⟩ := primaryTest_reads reads ran
      exact ⟨tree, .primary (by simpa using mark) read, emits⟩

section
variable {level inner : Test.Level} {join : Test → Test → Test} {joints : List Text} {joint : Text}
  {operand : TestReader}
  (read : ∀ {words between rest operator l r}, Reads c context level words l (operator :: between) →
    operator.text ∈ joints → Reads c context inner between r rest →
    Reads c context level words (join l r) rest)
  (emit : ∀ {left right l r}, Emits level left l → Emits inner right r →
    Emits level (.ofText (left.holds ++ joint ++ right.holds)) (join l r))
  (reads : ReadsTest c context inner operand)
include read emit reads

/-- The tests read so far stay in front of what is joined to them. -/
theorem joinedFrom_reads (fuel : Nat) {words rest after : List TestWord} {left found : Condition}
    {l : Test} (before : Reads c context level words l rest) (emits : Emits level left l)
    (ran : run s (joinedFrom joints joint operand fuel left rest) =
      (.ok (some (found, after)), t)) :
    ∃ tree, Reads c context level words tree after ∧ Emits level found tree := by
  induction fuel generalizing s rest left l with
  | zero =>
    cases ran
    exact ⟨l, before, emits⟩
  | succ fuel ih =>
    cases rest with
    | nil =>
      cases ran
      exact ⟨l, before, emits⟩
    | cons operator rest =>
      rw [joinedFrom] at ran
      split at ran
      · cases ran
        exact ⟨l, before, emits⟩
      · next listed =>
        replace listed : operator.text ∈ joints := by simpa using listed
        obtain ⟨result, u, operandRan, ran⟩ := of_run_bind ran
        split at ran
        · obtain ⟨r, readRight, emitsRight⟩ := reads operandRan
          exact ih (read before listed readRight) (emit emits emitsRight) ran
        · cases ran

theorem joinedTest_reads (first : ∀ {words t rest}, Reads c context inner words t rest →
      Reads c context level words t rest)
    (raise : ∀ {found t}, Emits inner found t → Emits level found t) :
    ReadsTest c context level (joinedTest joints joint operand) := by
  intro s t words found after ran
  obtain ⟨result, u, operandRan, ran⟩ := of_run_bind ran
  split at ran
  · obtain ⟨l, readLeft, emits⟩ := reads operandRan
    exact joinedFrom_reads read emit reads _ (first readLeft) (raise emits) ran
  · cases ran

end

theorem orTest_reads (fuel : Nat) : ReadsTest c context .or (orTest c context fuel) := by
  induction fuel with
  | zero =>
    intro s t words found after ran
    cases ran
  | succ fuel ih =>
    have conjunction := joinedTest_reads .andAlso .joinedAnd (notTest_reads ih) .and id
    exact joinedTest_reads .orElse .joinedOr conjunction .or .or

/-- Tests keep their meaning: a test is compiled to a condition and a negation which, read by the
precedence of their operators, are true and false as the test is by the grammar. -/
theorem testCondition_means {words : List TestWord} {found : Condition}
    (ran : run s (testCondition c context words) = (.ok (some found), t)) :
    ∃ tree, Reads c context .or words tree [] ∧
      ∃ holds fails, found.holds = Js.render holds ∧ found.fails = Js.render fails ∧
        ∀ (α : Type) [LinearOrder α] (I : Interpretation α), I.Exact → tree.IsSmall →
          Js.evaluate I holds = some (tree.truth I) ∧
          Js.evaluate I fails = some (!tree.truth I) := by
  rw [testCondition] at ran
  split at ran
  · cases ran
  obtain ⟨result, u, read, ran⟩ := of_run_bind ran
  split at ran
  · cases ran
    obtain ⟨tree, reads, holds, fails, holdsText, failsText, means⟩ := orTest_reads _ read
    refine ⟨tree, reads, holds, fails, holdsText, failsText, fun α _ I exact small => ?_⟩
    obtain ⟨held, failed⟩ := means α I exact small
    exact ⟨held.evaluate, failed.disjunction.evaluate⟩
  · cases ran

/-- The numbers that a test compares are small if those beside its operators are. -/
theorem isSmall_of_reads {level : Test.Level} {words rest : List TestWord} {tree : Test}
    (reads : Reads c context level words tree rest) : rest <:+ words ∧
      ((∀ {word operator other after}, word :: operator :: other :: after <:+ words →
        (operators.lookup operator.text).any (·.2) = true →
        ∀ a, Operand c context true word a ∨ Operand c context true other a → a.IsSmall) →
        tree.IsSmall) := by
  induction reads with
  | or _ ih => exact ih
  | and _ ih => exact ih
  | primary _ _ ih => exact ih
  | orElse _ _ _ left right | andAlso _ _ _ left right =>
    have between := (List.suffix_cons _ _).trans left.1
    exact ⟨right.1.trans between, fun small => ⟨left.2 small, right.2 fun within =>
      small (within.trans between)⟩⟩
  | not _ _ ih =>
    exact ⟨ih.1.trans (List.suffix_cons _ _), fun small => ih.2 fun within =>
      small (within.trans (List.suffix_cons _ _))⟩
  | group _ _ _ ih =>
    exact ⟨((List.suffix_cons _ _).trans ih.1).trans (List.suffix_cons _ _), fun small =>
      ih.2 fun within => small (within.trans (List.suffix_cons _ _))⟩
  | @compare word operator other rest r numeric a b _ listed left right =>
    refine ⟨⟨[word, operator, other], rfl⟩, fun small isNumber => ?_⟩
    subst isNumber
    have near := small (List.suffix_refl _) (by rw [listed]; rfl)
    exact ⟨near a (.inl left), near b (.inr right)⟩
  | @command operator word | @size operator word =>
    refine ⟨⟨[operator, word], rfl⟩, fun _ => ?_⟩
    rw [sized]
    split <;> trivial
  | @file operator word => exact ⟨⟨[operator, word], rfl⟩, fun _ => trivial⟩
  | operand => exact ⟨List.suffix_cons _ _, fun _ => trivial⟩
  | _ => exact ⟨⟨[_, _, _], rfl⟩, fun _ => trivial⟩

/-- A number is an operand as it is written. -/
theorem eq_of_operand_number {registry : Registry} {fuel : Nat} {n : Node} {a : Text}
    (kind : n.kind = .number)
    (operand : Operand (.ofFuel registry (fuel + 1)) context true (.ofNodes [n]) a) :
      a = n.text := by
  obtain ⟨s, t, ran⟩ := operand
  obtain ⟨fields, texts, made, number⟩ : ∃ fields : Fields, fields.IsText ∧
      Makes ((Compiler.ofFuel registry (fuel + 1)).compile n context) fields ∧
      fields.text? .number = some n.text := by
    refine ⟨[.argument, .quotedInnards, .templateInnards, .number, .value, .condition].map
      fun form => (form, .text n.text), by simp [Fields.IsText], .node fun s => ?_, rfl⟩
    rw [branch, kind]
    rfl
  have present : (s.push (.ofFields fields)).fragments[s.fragments.size]? =
      some (.ofFields fields) := by simp [CompileState.push]
  have single : run s (Arguments.convertOne (.ofFuel registry (fuel + 1)) context [n]) =
      (.ok (some s.fragments.size), s.push (.ofFields fields)) := by
    rw [Arguments.convertOne, run_bind_ok (Arguments.run_convert (by simp [kind]) made s)]
    rfl
  have proper : run (s.push (.ofFields fields)) (isFallback s.fragments.size) =
      (.ok false, s.push (.ofFields fields)) := by
    rw [isFallback, run_bind_ok (run_fragment_some present)]
    rfl
  obtain ⟨u, read, -⟩ := (CompileState.holds_push (s := s) fields).run_read texts
    (.inr (by simp [number]) : fields.Direct .number) registry fuel
  rw [number] at read
  simp only [operandValue, TestWord.ofNodes, run_bind_ok single, run_bind_ok proper,
    run_bind_ok read, Bool.false_eq_true, if_false, if_true, run_pure] at ran
  cases ran
  rfl

/-- The words of `! \( 5 -lt 3 -o -n a \) -a '!' = b`. -/
def groupedWords : List TestWord :=
  [.leaf .word "!", .leaf .word "\\(", .leaf .number "5", .leaf .word "-lt", .leaf .number "3",
    .leaf .word "-o", .leaf .word "-n", .leaf .word "a", .leaf .word "\\)", .leaf .word "-a",
    .leaf .rawString "'!'", .leaf .word "=", .leaf .word "b"].map fun n => .ofNodes [n]

/-- Integers are such an interpretation, and a comparison of two of them leaves a constant. -/
theorem testCondition_means_grouped : ∃ I : Interpretation Int, I.Exact ∧ ∃ found t,
    run .empty (testCondition (.ofFuel .standard 6) .none groupedWords) = (.ok (some found), t) ∧
    found.holds = "!(false || `a`.length > 0) && \"!\" === `b`" ∧
    ∃ tree, Reads (.ofFuel .standard 6) .none .or groupedWords tree [] ∧
      ∃ holds fails, found.holds = Js.render holds ∧ found.fails = Js.render fails ∧
        Js.evaluate I holds = some (tree.truth I) ∧ Js.evaluate I fails = some (!tree.truth I) := by
  have ran : (run .empty (testCondition (.ofFuel .standard 6) .none groupedWords)).1 =
      .ok (some ⟨"!(false || `a`.length > 0) && \"!\" === `b`",
        "!(!(false || `a`.length > 0) && \"!\" === `b`)"⟩) := by decide +kernel
  let I : Interpretation Int := ⟨fun text => text.exactInteger?.getD 0, List.length, fun _ => true⟩
  have exact : I.Exact := by
    intro a b m n left right
    simp [I, left, right]
  have whole := Prod.fst_eq_iff.1 ran
  obtain ⟨tree, reads, holds, fails, holdsText, failsText, means⟩ := testCondition_means whole
  have small : tree.IsSmall := by
    refine (isSmall_of_reads reads).2 fun within numeric a operand => ?_
    simp only [groupedWords, List.map_cons, List.map_nil, List.suffix_cons_iff, List.cons.injEq,
      List.suffix_nil, reduceCtorEq, and_false, or_false] at within
    rcases within with ⟨-, rfl, -⟩ | ⟨-, rfl, -⟩ | ⟨rfl, rfl, rfl, -⟩ | ⟨-, rfl, -⟩ | ⟨-, rfl, -⟩ |
      ⟨-, rfl, -⟩ | ⟨-, rfl, -⟩ | ⟨-, rfl, -⟩ | ⟨-, rfl, -⟩ | ⟨-, rfl, -⟩ | ⟨-, rfl, -⟩
    all_goals try exact absurd numeric (by decide)
    rcases operand with left | right
    · rw [eq_of_operand_number rfl left]
      exact fun _ => by decide
    · rw [eq_of_operand_number rfl right]
      exact fun _ => by decide
  exact ⟨I, exact, _, _, whole, rfl, tree, reads, holds, fails, holdsText, failsText,
    means Int I exact small⟩

end Compile

end ShellToDeno
