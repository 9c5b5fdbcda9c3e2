import ShellToDeno.Proofs.Tests.Evaluation
import ShellToDeno.Fragment.Record

/-!
# The grammar of tests

A test is a tree of comparisons and checks under `!`, `-a` and `-o`. `Test.Reads` is the grammar:
which words are read as which tree and which words are left. An operator is known by its text as it
is written, so that one in quotes is an operand. `Test.Emits` says when a condition and its negation
mean a tree, under every interpretation of its operands and checks; the lemmas after it put
conditions together as trees are put together.
-/
namespace ShellToDeno

inductive Test where
  | compare (r : Relation) (numeric : Bool) (left right : Text)
  | notEmpty (operand : Text)
  | check (c : Check)
  | not (t : Test)
  | and (l r : Test)
  | or (l r : Test)

/-- If it is a number, it is an integer that a double represents exactly. -/
def Text.IsSmall (text : Text) : Prop :=
  (Double.read? text).isSome → (Text.exactInteger? text).isSome

namespace Test

def truth {α : Type} [LinearOrder α] (I : Interpretation α) : Test → Bool
  | compare r _ a b => r.holds (I.value a) (I.value b)
  | notEmpty a => 0 < I.length a
  | check c => I.check c
  | not t => !t.truth I
  | and l r => l.truth I && r.truth I
  | or l r => l.truth I || r.truth I

/-- The numbers that a test compares are small. -/
def IsSmall : Test → Prop
  | compare _ numeric a b => numeric → a.IsSmall ∧ b.IsSmall
  | notEmpty _ | check _ => True
  | not t => t.IsSmall
  | and l r | or l r => l.IsSmall ∧ r.IsSmall

/-- Operators between two operands, and whether these are numbers. -/
def operators : List (Text × Relation × Bool) :=
  [("=", .equal, false), ("==", .equal, false), ("!=", .unequal, false), ("<", .less, false),
   (">", .greater, false), ("-eq", .equal, true), ("-ne", .unequal, true), ("-gt", .greater, true),
   ("-lt", .less, true), ("-ge", .atLeast, true), ("-le", .atMost, true)]

def sizeOperators : List Text := ["-n", "-z"]

def fileOperators : List Text := ["-e", "-a", "-f", "-d", "-L", "-h", "-s", "-x", "-r", "-w"]

def openings : List Text := ["(", "\\("]

def closings : List Text := [")", "\\)"]

/-- Whether the second of at least three words is an operator between operands. -/
def isInfix : List TestWord → Bool
  | _ :: operator :: _ :: _ => (operators.lookup operator.text).isSome || operator.text == "=~"
  | _ => false

/-- `-z` is the opposite of `-n`. -/
def sized (operator : Text) (t : Test) : Test := if operator = "-z" then not t else t

inductive Level where
  | or | and | not | primary

section
variable (c : Compiler) (context : Context)

/-- A word stands for an operand. -/
def Operand (numeric : Bool) (word : TestWord) (text : Text) : Prop :=
  ∃ s t, Compile.run s (Compile.operandValue c context numeric word) = (.ok (some text), t)

/-- A word stands for a pattern. -/
def Pattern (word : TestWord) (text : Text) : Prop :=
  ∃ s t u id, Compile.run s (Arguments.convertOne c context word.nodes) = (.ok (some id), t) ∧
    Compile.run t (c.read id .templateInnards) = (.ok (some text), u)

/-- A word is nothing but a lookup of a command, by the name that is found for it. -/
def Lookup (word : TestWord) (name : Option Text) : Prop :=
  ∃ call operand s t, Compile.substitutedLookup? context word.nodes = some (call, operand) ∧
    Compile.run s (call.value c operand) = (.ok name, t)

/-- The grammar: words that are read at some level as a test, and the words after it. -/
inductive Reads : Level → List TestWord → Test → List TestWord → Prop where
  | or {words rest : List TestWord} {t : Test} (first : Reads .and words t rest) :
    Reads .or words t rest
  | orElse {words between rest : List TestWord} {operator : TestWord} {l r : Test}
    (left : Reads .or words l (operator :: between))
    (joint : operator.text ∈ (["-o", "||"] : List Text))
    (right : Reads .and between r rest) : Reads .or words (.or l r) rest
  | and {words rest : List TestWord} {t : Test} (first : Reads .not words t rest) :
    Reads .and words t rest
  | andAlso {words between rest : List TestWord} {operator : TestWord} {l r : Test}
    (left : Reads .and words l (operator :: between))
    (joint : operator.text ∈ (["-a", "&&"] : List Text)) (right : Reads .not between r rest) :
    Reads .and words (.and l r) rest
  | not {word : TestWord} {words rest : List TestWord} {t : Test} (mark : word.text = "!")
    (inner : Reads .not words t rest) : Reads .not (word :: words) (.not t) rest
  | primary {word : TestWord} {words rest : List TestWord} {t : Test} (mark : word.text ≠ "!")
    (inner : Reads .primary (word :: words) t rest) : Reads .not (word :: words) t rest
  | group {word last : TestWord} {words rest : List TestWord} {t : Test}
    (opening : word.text ∈ openings) (inner : Reads .or words t (last :: rest))
    (closing : last.text ∈ closings) : Reads .primary (word :: words) t rest
  | compare {word operator other : TestWord} {rest : List TestWord} {r : Relation} {numeric : Bool}
    {a b : Text} (opening : word.text ∉ openings)
    (listed : operators.lookup operator.text = some (r, numeric))
    (left : Operand c context numeric word a) (right : Operand c context numeric other b) :
    Reads .primary (word :: operator :: other :: rest) (.compare r numeric a b) rest
  | matches {word operator other : TestWord} {rest : List TestWord} {a pattern : Text}
    (opening : word.text ∉ openings) (mark : operator.text = "=~")
    (left : Operand c context false word a) (right : Pattern c context other pattern) :
    Reads .primary (word :: operator :: other :: rest) (.check (.matches a pattern)) rest
  | command {operator word : TestWord} {rest : List TestWord} {name : Text}
    (alone : isInfix (operator :: word :: rest) = false)
    (mark : operator.text ∈ sizeOperators) (lookup : Lookup c context word (some name)) :
    Reads .primary (operator :: word :: rest) (sized operator.text (.check (.command name))) rest
  | size {operator word : TestWord} {rest : List TestWord} {a : Text}
    (alone : isInfix (operator :: word :: rest) = false)
    (mark : operator.text ∈ sizeOperators)
    (other : Compile.substitutedLookup? context word.nodes = none ∨ Lookup c context word none)
    (operand : Operand c context false word a) :
    Reads .primary (operator :: word :: rest) (sized operator.text (.notEmpty a)) rest
  | file {operator word : TestWord} {rest : List TestWord} {a : Text}
    (alone : isInfix (operator :: word :: rest) = false) (mark : operator.text ∈ fileOperators)
    (operand : Operand c context false word a) :
    Reads .primary (operator :: word :: rest) (.check (.file operator.text a)) rest
  | operand {word : TestWord} {rest : List TestWord} {a : Text}
    (opening : word.text ∉ openings) (alone : isInfix (word :: rest) = false)
    (last : word.text ∈ sizeOperators ++ fileOperators → rest = [])
    (operand : Operand c context false word a) : Reads .primary (word :: rest) (.notEmpty a) rest

end

/-- The part that a condition of some level can play in another. -/
def Level.Shape {α : Type} [LinearOrder α] (I : Interpretation α) :
    Level → List Js.Token → Bool → Prop
  | .or => Js.IsDisjunction I
  | _ => Js.IsConjunction I

/-- A condition means a test and its negation means the opposite, however operands and checks are
interpreted. -/
def Emits (level : Level) (found : Condition) (t : Test) : Prop :=
  ∃ holds fails, found.holds = Js.render holds ∧ found.fails = Js.render fails ∧
    ∀ (α : Type) [LinearOrder α] (I : Interpretation α), I.Exact → t.IsSmall →
      level.Shape I holds (t.truth I) ∧ Js.IsConjunction I fails !t.truth I

theorem render_append (tokens others : List Js.Token) :
    Js.render (tokens ++ others) = Js.render tokens ++ Js.render others := by simp [Js.render]

theorem render_parenthesized (tokens : List Js.Token) :
    Js.render (.opening :: tokens ++ [.closing]) = "(" ++ Js.render tokens ++ ")" := by
  rw [render_append]
  rfl

theorem render_negated (tokens : List Js.Token) :
    Js.render (.not :: .opening :: tokens ++ [.closing]) = "!(" ++ Js.render tokens ++ ")" := by
  rw [render_append]
  rfl

namespace Emits
variable {found left right : Condition} {t l r : Test}

theorem or (emits : Emits .and found t) : Emits .or found t := by
  obtain ⟨holds, fails, holdsText, failsText, means⟩ := emits
  refine ⟨holds, fails, holdsText, failsText, fun α _ I exact small => ?_⟩
  obtain ⟨held, failed⟩ := means α I exact small
  exact ⟨held.disjunction, failed⟩

theorem negate (emits : Emits .not found t) : Emits .not found.negate (.not t) := by
  obtain ⟨holds, fails, holdsText, failsText, means⟩ := emits
  refine ⟨fails, holds, failsText, holdsText, fun α _ I exact small => ?_⟩
  obtain ⟨held, failed⟩ := means α I exact small
  rw [truth, Bool.not_not]
  exact ⟨failed, held⟩

theorem parenthesized (emits : Emits .or found t) :
    Emits .primary ⟨"(" ++ found.holds ++ ")", found.fails⟩ t := by
  obtain ⟨holds, fails, holdsText, failsText, means⟩ := emits
  refine ⟨.opening :: holds ++ [.closing], fails, ?_, failsText, fun α _ I exact small => ?_⟩
  · rw [holdsText, render_parenthesized]
  · obtain ⟨held, failed⟩ := means α I exact small
    exact ⟨(Js.IsFactor.parenthesized held).conjunction, failed⟩

/-- Joined conditions are negated as a whole. -/
theorem joinedAnd (first : Emits .and left l) (second : Emits .not right r) :
    Emits .and (.ofText (left.holds ++ " && " ++ right.holds)) (.and l r) := by
  obtain ⟨lefts, _, leftText, _, leftMeans⟩ := first
  obtain ⟨rights, _, rightText, _, rightMeans⟩ := second
  have text : left.holds ++ " && " ++ right.holds = Js.render (lefts ++ .and :: rights) := by
    rw [leftText, rightText, render_append, List.append_assoc]
    rfl
  refine ⟨lefts ++ .and :: rights, .not :: .opening :: (lefts ++ .and :: rights) ++
    [.closing], text, ?_, fun α _ I exact small => ?_⟩
  · rw [render_negated, ← text]
    rfl
  · have joined := (leftMeans α I exact small.1).1.and (rightMeans α I exact small.2).1
    exact ⟨joined, (Js.IsFactor.parenthesized joined.disjunction).not.conjunction⟩

theorem joinedOr (first : Emits .or left l) (second : Emits .and right r) :
    Emits .or (.ofText (left.holds ++ " || " ++ right.holds)) (.or l r) := by
  obtain ⟨lefts, _, leftText, _, leftMeans⟩ := first
  obtain ⟨rights, _, rightText, _, rightMeans⟩ := second
  have text : left.holds ++ " || " ++ right.holds = Js.render (lefts ++ .or :: rights) := by
    rw [leftText, rightText, render_append, List.append_assoc]
    rfl
  refine ⟨lefts ++ .or :: rights, .not :: .opening :: (lefts ++ .or :: rights) ++ [.closing], text,
    ?_, fun α _ I exact small => ?_⟩
  · rw [render_negated, ← text]
    rfl
  · have joined := (leftMeans α I exact small.1).1.or (rightMeans α I exact small.2).1
    exact ⟨joined, (Js.IsFactor.parenthesized joined).not.conjunction⟩

theorem check (c : Check) : Emits .primary ⟨Js.checkText c, "!" ++ Js.checkText c⟩ (.check c) := by
  refine ⟨[.check c], [.not, .check c], ?_, ?_, fun α _ I _ _ => ?_⟩
  · simp [Js.render, Js.Token.text]
  · simp [Js.render, Js.Token.text]
  · have factor : Js.IsFactor I [.check c] (I.check c) := .check c
    exact ⟨factor.conjunction, factor.not.conjunction⟩

theorem ofCheck (c : Check) : Emits .primary (.ofText (Js.checkText c)) (.check c) := by
  have text : Js.checkText c = Js.render [.check c] := by simp [Js.render, Js.Token.text]
  refine ⟨[.check c], .not :: .opening :: [.check c] ++ [.closing], text, ?_, fun α _ I _ _ => ?_⟩
  · rw [render_negated, ← text]
    rfl
  · have factor : Js.IsFactor I [.check c] (I.check c) := .check c
    exact ⟨factor.conjunction,
      (Js.IsFactor.parenthesized factor.conjunction.disjunction).not.conjunction⟩

theorem compared {comparison : Comparison} {relation : Relation}
    (holds : Js.relations.lookup comparison.holds = some relation)
    (fails : Js.relations.lookup comparison.fails = some relation.opposite) (numeric : Bool)
      (a b : Text) :
    Emits .primary ⟨a ++ " " ++ comparison.holds ++ " " ++ b,
      a ++ " " ++ comparison.fails ++ " " ++ b⟩
      (.compare relation numeric a b) := by
  have text (operator : Text) : a ++ " " ++ operator ++ " " ++ b =
      Js.render [.operand (.value a), .compare operator, .operand (.value b)] := by
    simp [Js.render, Js.Token.text, Js.Operand.text]
  refine ⟨_, _, text comparison.holds, text comparison.fails, fun α _ I _ _ => ⟨?_, ?_⟩⟩
  · exact .comparison holds rfl
  · rw [truth, ← Relation.holds_opposite]
    exact .comparison fails rfl

theorem notEmpty (a : Text) : Emits .primary (.notEmpty a) (.notEmpty a) := by
  have greater : Js.relations.lookup (">" : Text) = some .greater := rfl
  have equal : Js.relations.lookup ("==" : Text) = some .equal := rfl
  have holds : (".length > 0" : Text) = ".length" ++ (" " ++ ">" ++ " ") ++ "0" := rfl
  have fails : (".length == 0" : Text) = ".length" ++ (" " ++ "==" ++ " ") ++ "0" := rfl
  refine ⟨[.operand (.length a), .compare ">", .operand .zero],
    [.operand (.length a), .compare "==", .operand .zero], ?_, ?_, fun α _ I _ _ => ⟨?_, ?_⟩⟩
  · simp [Js.render, Js.Token.text, Js.Operand.text, Condition.notEmpty, holds]
  · simp [Js.render, Js.Token.text, Js.Operand.text, Condition.notEmpty, fails]
  · exact .comparison greater rfl
  · refine .comparison equal ?_
    simp [Js.Operand.compare?, Relation.holds, truth, ← decide_not]

theorem sized (emits : Emits .primary found t) (operator : Text) :
    Emits .primary (if operator = "-z" then found.negate else found) (Test.sized operator t) := by
  rw [Test.sized]
  split
  · exact negate emits
  · exact emits

end Emits

end Test

end ShellToDeno
