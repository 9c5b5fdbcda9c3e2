import Mathlib.Data.Int.Order.Basic
import ShellToDeno.Compile.Test
import ShellToDeno.Proofs.Tests.Exact

/-!
# Conditions evaluated

The conditions that tests are compiled to, as tokens: comparisons of operands, checks that are true
or false, `!`, `&&`, `||` and parentheses. `Js.evaluate` reads the tokens from left to right by the
precedence of the operators, with one frame for each pair of parentheses that is open. Operands are
opaque. The rest of the module says how parts of a condition act on the evaluation when they stand
in front of others.
-/
namespace ShellToDeno

/-- The ways to compare two values. -/
inductive Relation where
  | equal | unequal | less | greater | atMost | atLeast
  deriving DecidableEq, Repr

namespace Relation

def holds {α : Type} [LinearOrder α] : Relation → α → α → Bool
  | equal, a, b => a = b
  | unequal, a, b => a ≠ b
  | less, a, b => a < b
  | greater, a, b => a > b
  | atMost, a, b => a ≤ b
  | atLeast, a, b => a ≥ b

def opposite : Relation → Relation
  | equal => unequal
  | unequal => equal
  | less => atLeast
  | greater => atMost
  | atMost => greater
  | atLeast => less

theorem holds_opposite {α : Type} [LinearOrder α] (r : Relation) (a b : α) :
    r.opposite.holds a b = !r.holds a b := by
  rw [Bool.eq_iff_iff]
  cases r <;> simp [opposite, holds]

end Relation

/-- What a test asks about something outside of it. -/
inductive Check where
  | file (operator operand : Text)
  | matches (operand pattern : Text)
  | command (name : Text)

/-- A meaning of operands in an order, and of checks. -/
structure Interpretation (α : Type) where
  value : Text → α
  length : Text → Nat
  check : Check → Bool

/-- Integer literals that doubles represent exactly have the order of their integers. -/
def Interpretation.Exact {α : Type} [LinearOrder α] (I : Interpretation α) : Prop :=
  ∀ {a b m n}, Text.exactInteger? a = some m → Text.exactInteger? b = some n →
    (I.value a ≤ I.value b ↔ m ≤ n)

theorem Interpretation.Exact.holds {α : Type} [LinearOrder α] {I : Interpretation α}
    (exact : I.Exact)
    {a b : Text} {m n : Int} (left : a.exactInteger? = some m) (right : b.exactInteger? = some n)
    (r : Relation) : r.holds (I.value a) (I.value b) = r.holds m n := by
  have le := exact left right
  have ge := exact right left
  cases r <;>
    simp only [Relation.holds, ne_eq, gt_iff_lt, ge_iff_le, le_antisymm_iff, ← not_le, le, ge]

namespace Js

inductive Operand where
  | value (text : Text)
  | length (text : Text)
  | zero

inductive Token where
  | operand (o : Operand)
  | compare (operator : Text)
  | constant (b : Bool)
  | check (c : Check)
  | not | and | or | opening | closing

def Operand.text : Operand → Text
  | value text => text
  | length text => text ++ ".length"
  | zero => "0"

def checkText : Check → Text
  | .file operator operand => (Compile.fileCheck? operator operand).getD []
  | .matches operand pattern => operand ++ ".match(new RegExp(`" ++ pattern ++ "`))"
  | .command name => "hasCommand(" ++ name ++ ")"

def Token.text : Token → Text
  | operand o => o.text
  | compare operator => " " ++ operator ++ " "
  | constant b => if b then "true" else "false"
  | check c => checkText c
  | not => "!"
  | and => " && "
  | or => " || "
  | opening => "("
  | closing => ")"

def render (tokens : List Token) : Text := tokens.flatMap Token.text

def relations : List (Text × Relation) :=
  [("===", .equal), ("!==", .unequal), ("==", .equal), ("!=", .unequal), ("<", .less),
   (">", .greater), ("<=", .atMost), (">=", .atLeast)]

variable {α : Type} [LinearOrder α] (I : Interpretation α)

/-- Operands are compared with their like. -/
def Operand.compare? (r : Relation) : Operand → Operand → Option Bool
  | value a, value b => some (r.holds (I.value a) (I.value b))
  | length a, zero => some (r.holds (I.length a) 0)
  | _, _ => none

/-- What has been read since a parenthesis: the conjunctions before the last `||`, the factors of
the current one, and whether the next factor is negated. -/
structure Frame where
  disjunction : Bool
  conjunction : Bool
  negated : Bool

namespace Frame

def start : Frame := ⟨false, true, false⟩

def finish (f : Frame) (b : Bool) : Frame :=
    ⟨f.disjunction, f.conjunction && (b ^^ f.negated), false⟩

def value (f : Frame) : Bool := f.disjunction || f.conjunction

end Frame

/-- What is expected next: an operand, what follows one in a comparison, or an operator. -/
inductive Phase where
  | operand
  | left (o : Operand)
  | right (o : Operand) (r : Relation)
  | joint

structure Evaluation where
  outer : List Frame
  frame : Frame
  phase : Phase

/-- Reads one token. A negated operand is no side of a comparison, since `!` would take it alone. -/
def step (e : Evaluation) (token : Token) : Option Evaluation :=
  match e.phase, token with
  | .operand, .not => some { e with frame.negated := !e.frame.negated }
  | .operand, .opening => some ⟨e.frame :: e.outer, .start, .operand⟩
  | .operand, .constant b => some ⟨e.outer, e.frame.finish b, .joint⟩
  | .operand, .check c => some ⟨e.outer, e.frame.finish (I.check c), .joint⟩
  | .operand, .operand o => if e.frame.negated then none else some ⟨e.outer, e.frame, .left o⟩
  | .left o, .compare operator =>
    (relations.lookup operator).map fun r => ⟨e.outer, e.frame, .right o r⟩
  | .right o r, .operand p => (o.compare? I r p).map fun b => ⟨e.outer, e.frame.finish b, .joint⟩
  | .joint, .and => some ⟨e.outer, e.frame, .operand⟩
  | .joint, .or => some ⟨e.outer, ⟨e.frame.value, true, false⟩, .operand⟩
  | .joint, .closing =>
    match e.outer with
    | [] => none
    | f :: outer => some ⟨outer, f.finish e.frame.value, .joint⟩
  | _, _ => none

/-- The value of a condition, none if its tokens are none. -/
def evaluate (tokens : List Token) : Option Bool :=
  match tokens.foldlM (step I) ⟨[], .start, .operand⟩ with
  | some ⟨[], f, .joint⟩ => some f.value
  | _ => none

/-!
 A factor can follow `!`; a conjunction is one or more factors and comparisons; a disjunction needs
parentheses wherever something else stands beside it. 
-/

def IsFactor (tokens : List Token) (b : Bool) : Prop :=
  ∀ outer f, tokens.foldlM (step I) ⟨outer, f, .operand⟩ = some ⟨outer, f.finish b, .joint⟩

def IsConjunction (tokens : List Token) (b : Bool) : Prop :=
  ∀ outer f, f.negated = false →
    tokens.foldlM (step I) ⟨outer, f, .operand⟩ = some ⟨outer, f.finish b, .joint⟩

def IsDisjunction (tokens : List Token) (b : Bool) : Prop :=
  ∀ outer before, ∃ f, tokens.foldlM (step I) ⟨outer, ⟨before, true, false⟩, .operand⟩ =
    some ⟨outer, f, .joint⟩ ∧ f.value = (before || b)

variable {I} {tokens others : List Token} {b d : Bool}

theorem IsFactor.conjunction (factor : IsFactor I tokens b) : IsConjunction I tokens b :=
  fun outer f _ => factor outer f

theorem IsConjunction.disjunction (conjunction : IsConjunction I tokens b) :
    IsDisjunction I tokens b := by
  intro outer before
  refine ⟨_, conjunction outer ⟨before, true, false⟩ rfl, ?_⟩
  simp [Frame.finish, Frame.value]

theorem IsFactor.constant (b : Bool) : IsFactor I [.constant b] b := fun _ _ => rfl

theorem IsFactor.check (c : Check) : IsFactor I [.check c] (I.check c) := fun _ _ => rfl

theorem IsFactor.not (factor : IsFactor I tokens b) : IsFactor I (.not :: tokens) !b := by
  intro outer f
  refine (factor outer { f with negated := !f.negated }).trans ?_
  simp [Frame.finish]

theorem IsFactor.parenthesized (disjunction : IsDisjunction I tokens b) :
    IsFactor I (.opening :: tokens ++ [.closing]) b := by
  intro outer f
  obtain ⟨g, run, value⟩ := disjunction (f :: outer) false
  have opened : (.opening :: tokens).foldlM (step I) ⟨outer, f, .operand⟩ =
      some ⟨f :: outer, g, .joint⟩ := run
  rw [List.foldlM_append, opened]
  simp [step, value]

theorem IsConjunction.comparison {l r : Operand} {operator : Text} {relation : Relation}
    (listed : relations.lookup operator = some relation)
    (compared : l.compare? I relation r = some b) :
    IsConjunction I [.operand l, .compare operator, .operand r] b := by
  intro outer f negated
  simp [step, negated, listed, compared]

theorem IsConjunction.and (first : IsConjunction I tokens b) (second : IsConjunction I others d) :
    IsConjunction I (tokens ++ .and :: others) (b && d) := by
  intro outer f negated
  rw [List.foldlM_append, first outer f negated]
  refine (second outer (f.finish b) rfl).trans ?_
  simp [Frame.finish, negated, Bool.and_assoc]

theorem IsDisjunction.or (first : IsDisjunction I tokens b) (second : IsConjunction I others d) :
    IsDisjunction I (tokens ++ .or :: others) (b || d) := by
  intro outer before
  obtain ⟨f, run, value⟩ := first outer before
  refine ⟨Frame.finish ⟨f.value, true, false⟩ d, ?_, ?_⟩
  · rw [List.foldlM_append, run]
    exact second outer ⟨f.value, true, false⟩ rfl
  · change (f.value || (true && (d ^^ false))) = _
    simp [value, Bool.or_assoc]

theorem IsDisjunction.evaluate (disjunction : IsDisjunction I tokens b) :
    evaluate I tokens = some b := by
  obtain ⟨f, run, value⟩ := disjunction [] false
  have start : Frame.start = ⟨false, true, false⟩ := rfl
  rw [Js.evaluate, start, run]
  simpa using value

end Js

end ShellToDeno
