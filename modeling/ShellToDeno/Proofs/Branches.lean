import Mathlib.Data.List.DropRight
import ShellToDeno.Proofs.Settling.Contained

/-!
# Branches of an if statement

An if statement is read child by child. Where its children are those of a statement with branches
(`IsIf`), what is written is a chain of branches (`Chain`), each with what its own nodes become
(`Assembled`). Where a mark is missing there is a marker.
-/
namespace ShellToDeno

/-- A clause with a condition of its own: the nodes up to its `then`, and those after it. -/
def Node.IsElif (n : Node) (condition body : List Node) : Prop :=
  n.kind = .elifClause ∧ ∃ keyword mark : Node, keyword.kind = .token "elif" ∧
  mark.kind = .token "then" ∧ n.children = keyword :: (condition ++ mark :: body) ∧
    ∀ m ∈ condition, m.kind ≠ .token "elif" ∧ m.kind ≠ .token "then"

def Node.IsElse (n : Node) (body : List Node) : Prop :=
  n.kind = .elseClause ∧ ∃ keyword : Node, keyword.kind = .token "else" ∧
  n.children = keyword :: body

namespace Compile

/-- The nodes of an if statement: condition and body of the first branch, of the branches after it,
and the body of the last one if it has no condition. -/
structure Branches where
  condition : List Node
  body : List Node
  others : List (List Node × List Node)
  last : Option (List Node)

/-- The clauses after the first body, with the nodes in them. -/
inductive Clauses : List Node → List (List Node × List Node) → Option (List Node) → Prop where
  | fi {n : Node} (kind : n.kind = .token "fi") : Clauses [n] [] none
  | otherwise {n fi : Node} {body : List Node} (own : n.IsElse body)
      (kind : fi.kind = .token "fi") :
    Clauses [n, fi] [] (some body)
  | elif {n : Node} {condition body nodes : List Node} {others : List (List Node × List Node)}
    {last : Option (List Node)} (own : n.IsElif condition body) (rest : Clauses nodes others last) :
    Clauses (n :: nodes) ((condition, body) :: others) last

/-- Where a body ends. -/
def isBoundary (n : Node) : Bool := n.isAny [.elifClause, .elseClause, .token "fi"]

theorem isBoundary_fi {n : Node} (kind : n.kind = .token "fi") : isBoundary n = true := by
  simp [isBoundary, Node.isAny, kind]

theorem isBoundary_elif {n : Node} {condition body : List Node} (own : n.IsElif condition body) :
    isBoundary n = true := by
  simp [isBoundary, Node.isAny, own.1]

theorem isBoundary_else {n : Node} {body : List Node} (own : n.IsElse body) :
    isBoundary n = true := by
  simp [isBoundary, Node.isAny, own.1]

/-- The children of an if statement. -/
def IsIf (children : List Node) (branches : Branches) : Prop :=
  ∃ (keyword mark : Node) (clauses : List Node), keyword.kind = .token "if" ∧
  mark.kind = .token "then" ∧
    children = keyword :: (branches.condition ++ mark :: (branches.body ++ clauses)) ∧
    (∀ m ∈ branches.condition, m.kind ≠ .token "then") ∧
      (∀ m ∈ branches.body, isBoundary m = false) ∧
    Clauses clauses branches.others branches.last

/-! What is written -/

/-- A stretch of a text that is always the same, or one that was filled in. -/
inductive Snippet where
  | fixed (text : Text)
  | filled (text : Text)
  deriving DecidableEq

def Snippet.text : Snippet → Text
  | fixed text | filled text => text

structure Chain where
  indent : Text
  condition : SourceCondition
  body : Text
  others : List (SourceCondition × Text)
  last : Option Text

namespace Chain

def elifPieces (indent : Text) (branch : SourceCondition × Text) : List Snippet :=
  [.fixed "\n", .filled indent, .fixed "// ", .filled branch.1.source, .fixed "\n", .filled indent,
    .fixed "\x7d else if (", .filled branch.1.text, .fixed ") \x7b\n", .filled branch.2]

def elsePieces (indent body : Text) : List Snippet :=
  [.fixed "\n", .filled indent, .fixed "\x7d else \x7b\n", .filled body]

def closing (indent : Text) : List Snippet := [.fixed "\n", .filled indent, .fixed "\x7d"]

/-- What stands after the first body. -/
def ending (indent : Text) (others : List (SourceCondition × Text)) (last : Option Text) :
    List Snippet :=
  others.flatMap (elifPieces indent) ++ last.toList.flatMap (elsePieces indent) ++ closing indent

def opening (condition : SourceCondition) (body : Text) : List Snippet :=
  [.fixed "// ", .filled condition.source, .fixed "\n", .filled condition.indent, .fixed "if (",
    .filled condition.text, .fixed ") \x7b\n", .filled body]

def pieces (chain : Chain) : List Snippet :=
  opening chain.condition chain.body ++ ending chain.indent chain.others chain.last

def text (chain : Chain) : Text := chain.pieces.flatMap Snippet.text

/-- What opens a branch. -/
def heads : List Snippet := [.fixed "if (", .fixed "\x7d else if (", .fixed "\x7d else \x7b\n"]

def skeleton (pieces : List Snippet) : Text := pieces.flatMap fun
  | .fixed text => text
  | .filled _ => []

end Chain

/-- How many braces are open after a text; none is closed that was not opened. -/
def depth? : Nat → Text → Option Nat
  | depth, [] => some depth
  | depth, b :: rest =>
    if b == Ascii.openBrace then depth? (depth + 1) rest
    else if b == Ascii.closeBrace then
      match depth with
      | 0 => none
      | depth + 1 => depth? depth rest
    else depth? depth rest

/-! What the nodes become -/

/-- What a run of statements may end with. -/
def isTrailing (n : Node) : Bool := n.isAny [.whitespace, .token ";", .text]

/-- Some nodes without the separators around them. -/
structure IsTrimmed (nodes kept : List Node) : Prop where
  around : ∃ before after : List Node, nodes = before ++ kept ++ after ∧
    (∀ m ∈ before, m.kind = .whitespace) ∧ ∀ m ∈ after, isTrailing m = true
  first : ∀ m ∈ kept.head?, m.kind ≠ .whitespace
  last : ∀ m ∈ kept.getLast?, isTrailing m = false

/-- A body has what each of its nodes adds, in order. -/
def IsBody (c : Compiler) (indent : Text) (s : CompileState) (nodes : List Node) (text : Text)
    (t : CompileState) : Prop :=
  ∃ kept texts, IsTrimmed nodes kept ∧ AddsAll c .ifConsequence s kept texts t ∧
    text = (if kept.isEmpty then [] else (blockLead indent nodes).1) ++ texts.flatten

/-- A condition is that of the only statement among its nodes. -/
inductive IsCondition (c : Compiler) (s : CompileState) (nodes : List Node) :
    SourceCondition → CompileState → Prop where
  | only {n : Node} {kept : List Node} {id : FragmentId} {t u : CompileState} {found : Option Text}
    (trimmed : IsTrimmed nodes kept) (alone : nodes.filter (fun n => !isLayout n) = [n])
    (compiled : run s (c.compile n .ifCondition) = (.ok id, t))
    (read : run t (readFirstOr c id n [.condition, .success, .value]) = (.ok found, u)) :
    IsCondition c s nodes ⟨oneLine (Arguments.textOf kept), (kept.head?.map Node.indent).getD [],
      found.getD (Js.marker (oneLine (Arguments.textOf kept)))⟩ u
  | several {kept : List Node} {t : CompileState} (trimmed : IsTrimmed nodes kept)
    (count : (nodes.filter fun n => !isLayout n).length ≠ 1)
    (fragments : t.fragments = s.fragments) :
    IsCondition c s nodes ⟨oneLine (Arguments.textOf kept), (kept.head?.map Node.indent).getD [],
      Js.marker (oneLine (Arguments.textOf kept))⟩ t

/-- The branches after the first one, each with what its own nodes become. -/
inductive Followed (c : Compiler) (indent : Text) : CompileState → List (List Node × List Node) →
    Option (List Node) → List (SourceCondition × Text) → Option Text → CompileState → Prop where
  | closed (s : CompileState) : Followed c indent s [] none [] none s
  | otherwise {s t : CompileState} {nodes : List Node} {text : Text}
      (body : IsBody c indent s nodes text t) :
    Followed c indent s [] (some nodes) [] (some text) t
  | elif {s t u v : CompileState} {nodes inner : List Node} {others : List (List Node × List Node)}
    {last : Option (List Node)} {found : SourceCondition} {text : Text}
    {texts : List (SourceCondition × Text)} {final : Option Text}
    (condition : IsCondition c s nodes found t) (body : IsBody c indent t inner text u)
    (rest : Followed c indent u others last texts final v) :
    Followed c indent s ((nodes, inner) :: others) last ((found, text) :: texts) final v

/-- A chain whose branches are those of the nodes, compiled in source order. -/
inductive Assembled (c : Compiler) (s : CompileState) (branches : Branches) (chain : Chain) :
    CompileState → Prop where
  | mk {t u v : CompileState} (condition : IsCondition c s branches.condition chain.condition t)
    (body : IsBody c chain.indent t branches.body chain.body u)
    (others : Followed c chain.indent u branches.others branches.last chain.others chain.last v) :
    Assembled c s branches chain v

theorem Followed.count {c : Compiler} {indent : Text} {s t : CompileState}
    {others : List (List Node × List Node)} {last : Option (List Node)}
    {texts : List (SourceCondition × Text)} {final : Option Text}
    (followed : Followed c indent s others last texts final t) :
    texts.length = others.length ∧ final.toList.length = last.toList.length := by
  induction followed with
  | closed => exact ⟨rfl, rfl⟩
  | otherwise => exact ⟨rfl, rfl⟩
  | elif _ _ _ ih => exact ⟨congrArg Nat.succ ih.1, ih.2⟩

theorem isTrimmed_trimSeparators (nodes : List Node) : IsTrimmed nodes (trimSeparators nodes) := by
  let isBlank (n : Node) : Bool := n.kind == .whitespace
  let inner := nodes.rdropWhile isTrailing
  have split : inner.takeWhile isBlank ++ trimSeparators nodes = inner :=
    List.takeWhile_append_dropWhile
  refine ⟨⟨inner.takeWhile isBlank, nodes.rtakeWhile isTrailing, ?_, ?_, ?_⟩, ?_, ?_⟩
  · rw [split, List.rdropWhile_append_rtakeWhile]
  · intro m member
    have blank : isBlank m = true := List.mem_takeWhile_imp member
    exact eq_of_beq blank
  · exact fun m member => List.mem_rtakeWhile_imp member
  · intro m head
    have other := List.head?_dropWhile_not isBlank inner
    rw [show inner.dropWhile isBlank = trimSeparators nodes from rfl,
      Option.mem_def.1 head] at other
    simpa [isBlank] using other
  · intro m last
    have same : inner.getLast? = some m := by
      rw [← split, List.getLast?_append, Option.mem_def.1 last, Option.some_or]
    have nonempty : inner ≠ [] := by
      intro empty
      rw [empty] at same
      cases same
    rw [List.getLast?_eq_some_getLast nonempty] at same
    obtain rfl := Option.some.inj same
    simpa using List.rdropWhile_last_not isTrailing nodes nonempty

/-- Separators are layout. -/
theorem IsTrimmed.filter_eq {nodes kept : List Node} (trimmed : IsTrimmed nodes kept) :
    kept.filter (fun n => !isLayout n) = nodes.filter (fun n => !isLayout n) := by
  obtain ⟨before, after, rfl, blank, trailing⟩ := trimmed.around
  have first : before.filter (fun n => !isLayout n) = [] :=
    List.filter_eq_nil_iff.2 fun m member => by simp [isLayout, Node.isAny, blank m member]
  have last : after.filter (fun n => !isLayout n) = [] :=
    List.filter_eq_nil_iff.2 fun m member => by
      have known := trailing m member
      simp only [isTrailing, isLayout, Node.isAny] at known ⊢
      grind
  rw [List.filter_append, List.filter_append, first, last, List.nil_append, List.append_nil]

/-! Heads and braces of a chain -/

namespace Chain

theorem filter_heads (chain : Chain) : chain.pieces.filter (· ∈ heads) = .fixed "if (" ::
    (List.replicate chain.others.length (.fixed "\x7d else if (") ++
      List.replicate chain.last.toList.length (.fixed "\x7d else \x7b\n")) := by
  have elifs (others : List (SourceCondition × Text)) :
      (others.flatMap (elifPieces chain.indent)).filter (· ∈ heads) =
        List.replicate others.length (.fixed "\x7d else if (") := by
    induction others with
    | nil => rfl
    | cons branch others ih =>
      rw [List.flatMap_cons, List.filter_append, ih]
      rfl
  have final : (chain.last.toList.flatMap (elsePieces chain.indent)).filter (· ∈ heads) =
      List.replicate chain.last.toList.length (.fixed "\x7d else \x7b\n") := by
    cases chain.last <;> rfl
  have first : (opening chain.condition chain.body).filter (· ∈ heads) = [.fixed "if ("] := rfl
  have close : (closing chain.indent).filter (· ∈ heads) = [] := rfl
  rw [pieces, ending, List.filter_append, List.filter_append, List.filter_append, first, elifs,
    final, close, List.append_nil, List.singleton_append]

theorem skeleton_append (first second : List Snippet) :
    skeleton (first ++ second) = skeleton first ++ skeleton second :=
  List.flatMap_append

end Chain

theorem depth?_append (depth : Nat) (first second : Text) :
    depth? depth (first ++ second) = (depth? depth first).bind (depth? · second) := by
  fun_induction depth? depth first with
  | case1 => rfl
  | case2 depth b rest isOpen ih => simpa [depth?, isOpen] using ih
  | case3 b rest notOpen isClose => simp [depth?, notOpen, isClose]
  | case4 b rest notOpen isClose depth ih => simpa [depth?, notOpen, isClose] using ih
  | case5 depth b rest notOpen notClose ih => simpa [depth?, notOpen, notClose] using ih

/-- Every branch closes the brace of the one before it. -/
theorem Chain.depth?_skeleton (chain : Chain) : depth? 0 (skeleton chain.pieces) = some 0 := by
  have elifs (others : List (SourceCondition × Text)) :
      depth? 1 (skeleton (others.flatMap (elifPieces chain.indent))) = some 1 := by
    induction others with
    | nil => rfl
    | cons branch others ih =>
      have one : depth? 1 (skeleton (elifPieces chain.indent branch)) = some 1 := rfl
      rw [List.flatMap_cons, skeleton_append, depth?_append, one, Option.bind_some, ih]
  have final : depth? 1 (skeleton (chain.last.toList.flatMap (elsePieces chain.indent))) =
      some 1 := by
    cases chain.last <;> rfl
  have first : depth? 0 (skeleton (opening chain.condition chain.body)) = some 1 := rfl
  have close : depth? 1 (skeleton (closing chain.indent)) = some 0 := rfl
  rw [pieces, ending, skeleton_append, skeleton_append, skeleton_append, depth?_append, first,
    Option.bind_some,
    depth?_append, depth?_append, elifs, Option.bind_some, final, Option.bind_some, close]

/-! Child by child -/

variable {c : Compiler} {indent written : Text} {n : Node}
    {condition body met nodes rest : List Node}

theorem ifClause_elif (own : n.IsElif condition body) : ifClause c indent n = (do
    let found ← conditionOf c condition
    let text ← block c .ifConsequence indent body
    return (Chain.elifPieces indent (found, text)).flatMap Snippet.text) := by
  obtain ⟨kind, keyword, mark, isElif, isThen, children, plain⟩ := own
  have before : n.children.takeWhile (fun child => child.kind != .token "then") =
      keyword :: condition := by
    rw [children, List.takeWhile_cons_of_pos (by rw [isElif]; decide),
      List.takeWhile_append_of_pos fun m member => by simp [(plain m member).2],
      List.takeWhile_cons_of_neg (by rw [isThen]; decide), List.append_nil]
  have after : n.children.drop (keyword :: condition).length = mark :: body := by
    rw [children, ← List.cons_append, List.drop_left]
  have between : (keyword :: condition).filter (fun child => child.kind != .token "elif") =
      condition := by
    rw [List.filter_cons_of_neg (by rw [isElif]; decide), List.filter_eq_self]
    exact fun m member => by simp [(plain m member).1]
  rw [ifClause, kind, if_pos (by decide), elifClause, before, after]
  dsimp only
  rw [between]
  refine bind_congr fun found => bind_congr fun text => ?_
  simp [Chain.elifPieces, Snippet.text]

theorem ifClause_else (own : n.IsElse body) : ifClause c indent n = (do
    let text ← block c .ifConsequence indent body
    return (Chain.elsePieces indent text).flatMap Snippet.text) := by
  obtain ⟨kind, keyword, isElse, children⟩ := own
  have after : afterKeyword "else" n.children = body := by
    rw [afterKeyword, children, List.dropWhile_cons_of_neg (by rw [isElse]; decide)]
  rw [ifClause, kind, if_neg (by decide), if_pos (by decide), after]
  refine bind_congr fun text => ?_
  simp [Chain.elsePieces, Snippet.text]

/-! One step in each stage -/

theorem ifStep_condition (other : n.kind ≠ .token "then") :
    ifStep c indent (.condition met) n = pure (.condition (met ++ [n]), []) := by
  simp [ifStep, other]

theorem ifStep_then (kind : n.kind = .token "then") : ifStep c indent (.condition met) n = (do
    let found ← conditionOf c met
    return (.consequence [], "// " ++ found.source ++ "\n" ++ found.indent ++ "if (" ++
      found.text ++ ") \x7b\n")) := by
  simp [ifStep, kind]

theorem ifStep_body (inner : isBoundary n = false) :
    ifStep c indent (.consequence met) n = pure (.consequence (met ++ [n]), []) := by
  rw [isBoundary] at inner
  simp [ifStep, inner]

theorem ifStep_boundary (boundary : isBoundary n = true) :
    ifStep c indent (.consequence met) n = (do
    let body ← block c .ifConsequence indent met
    let text ← ifClause c indent n
    return (.clauses (n.kind == .token "fi"), body ++ text)) := by
  rw [isBoundary] at boundary
  simp [ifStep, boundary]

theorem ifStep_between {closed : Bool} (inner : isBoundary n = false) :
    ifStep c indent (.clauses closed) n = pure (.clauses closed, []) := by
  rw [isBoundary] at inner
  simp [ifStep, inner]

theorem ifStep_clause {closed : Bool} (boundary : isBoundary n = true) :
    ifStep c indent (.clauses closed) n = (do
      let text ← ifClause c indent n
      return (.clauses (closed || n.kind == .token "fi"), text)) := by
  rw [isBoundary] at boundary
  simp [ifStep, boundary]

/-! Many steps in one stage -/

theorem ifFrom_condition (plain : ∀ m ∈ nodes, m.kind ≠ .token "then") :
    ifFrom c indent (.condition met) written (nodes ++ rest) =
      ifFrom c indent (.condition (met ++ nodes)) written rest := by
  induction nodes generalizing met with
  | nil => simp
  | cons m nodes ih =>
    rw [List.forall_mem_cons] at plain
    rw [List.cons_append, ifFrom, ifStep_condition plain.1, pure_bind]
    dsimp only
    rw [List.append_nil, ih plain.2, List.append_assoc, List.singleton_append]

theorem ifFrom_body (inner : ∀ m ∈ nodes, isBoundary m = false) :
    ifFrom c indent (.consequence met) written (nodes ++ rest) =
      ifFrom c indent (.consequence (met ++ nodes)) written rest := by
  induction nodes generalizing met with
  | nil => simp
  | cons m nodes ih =>
    rw [List.forall_mem_cons] at inner
    rw [List.cons_append, ifFrom, ifStep_body inner.1, pure_bind]
    dsimp only
    rw [List.append_nil, ih inner.2, List.append_assoc, List.singleton_append]

theorem ifFrom_clause (boundary : isBoundary n = true) :
    ifFrom c indent (.clauses false) written (n :: rest) =
    (do
      let text ← ifClause c indent n
      ifFrom c indent (.clauses (n.kind == .token "fi")) (written ++ text) rest) := by
  simp [ifFrom, ifStep_clause boundary]

/-- Where the first body ends it is written before the clause that ends it. -/
theorem ifFrom_boundary (boundary : isBoundary n = true) :
    ifFrom c indent (.consequence met) written (n :: rest) = (do
      let body ← block c .ifConsequence indent met
      ifFrom c indent (.clauses false) (written ++ body) (n :: rest)) := by
  simp [ifFrom, ifStep_boundary boundary, ifStep_clause boundary]

theorem ifFrom_fi (kind : n.kind = .token "fi") :
    ifFrom c indent (.clauses false) written [n] =
    pure (some (written ++ ("\n" ++ indent ++ "\x7d"))) := by
  have clause : ifClause c indent n = pure ("\n" ++ indent ++ "\x7d") := by
    rw [ifClause, kind, if_neg (by decide), if_neg (by decide)]
  rw [ifFrom_clause (isBoundary_fi kind), clause, pure_bind, kind]
  rfl

theorem Clauses.exists_boundary {others : List (List Node × List Node)} {last : Option (List Node)}
    (clauses : Clauses nodes others last) : ∃ first rest,
    nodes = first :: rest ∧ isBoundary first = true := by
  cases clauses with
  | fi kind => exact ⟨_, _, rfl, isBoundary_fi kind⟩
  | otherwise own _ => exact ⟨_, _, rfl, isBoundary_else own⟩
  | elif own _ => exact ⟨_, _, rfl, isBoundary_elif own⟩

/-! Nothing of this faults -/

/-- The marks that are still to come. -/
def IfStage.needs : IfStage → List Kind
  | .start => [.token "if", .token "then", .token "fi"]
  | .condition _ => [.token "then", .token "fi"]
  | .consequence _ => [.token "fi"]
  | .clauses closed => if closed then [] else [.token "fi"]

theorem cons_sublist_cons_iff {a b : Kind} {kinds others : List Kind} :
    (a :: kinds).Sublist (b :: others) ↔
      if a = b then kinds.Sublist others else (a :: kinds).Sublist others := by
  split
  · next same => rw [same, List.cons_sublist_cons]
  · next differ =>
    rw [List.sublist_cons_iff]
    constructor
    · rintro (later | ⟨r, same, _⟩)
      · exact later
      · exact absurd (List.cons.inj same).1 differ
    · exact .inl

theorem exists_run_readFirstOr (c : Compiler) (s : CompileState) (id : FragmentId) (n : Node)
    (forms : List Form) : ∃ found t, run s (readFirstOr c id n forms) = (.ok found, t) := by
  induction forms generalizing s with
  | nil => exact ⟨none, s, rfl⟩
  | cons form forms ih =>
    obtain ⟨found, t, ran, _⟩ := run_readOr c s id n form
    rw [readFirstOr, run_bind_ok ran]
    cases found with
    | some text => exact ⟨_, t, rfl⟩
    | none => exact ih t

section
variable (registry : Registry) {fuel : Nat} (positive : 0 < fuel)
include positive

theorem exists_run_conditionOf (s : CompileState) (nodes : List Node) :
    ∃ found t, run s (conditionOf (.ofFuel registry fuel) nodes) = (.ok found, t) ∧
      IsCondition (.ofFuel registry fuel) s nodes found t := by
  have trimmed := isTrimmed_trimSeparators nodes
  rw [conditionOf]
  split
  · next only alone =>
    rw [trimmed.filter_eq] at alone
    obtain ⟨id, t, compiled, _⟩ := Compiler.exists_compile registry positive s only .ifCondition
    obtain ⟨found, u, read⟩ :=
      exists_run_readFirstOr (.ofFuel registry fuel) t id only [.condition, .success, .value]
    rw [run_bind_ok compiled, run_bind_ok read]
    exact ⟨_, u, rfl, .only trimmed alone compiled read⟩
  · next several =>
    refine ⟨_, _, rfl, .several trimmed (fun count => ?_) rfl⟩
    obtain ⟨only, alone⟩ := List.length_eq_one_iff.1 count
    exact several only (trimmed.filter_eq.trans alone)

theorem exists_run_block (s : CompileState) (indent : Text) (nodes : List Node) :
    ∃ text t, run s (block (.ofFuel registry fuel) .ifConsequence indent nodes) = (.ok text, t) ∧
      IsBody (.ofFuel registry fuel) indent s nodes text t := by
  have trimmed := isTrimmed_trimSeparators nodes
  rw [block]
  split
  · next lead same =>
    have kept : trimSeparators nodes = [] := congrArg Prod.snd same
    rw [kept] at trimmed
    exact ⟨[], s, rfl, [], [], trimmed, .nil s, rfl⟩
  · next lead kept nonempty same =>
    have first : (blockLead indent nodes).1 = lead := congrArg Prod.fst same
    have second : trimSeparators nodes = kept := congrArg Prod.snd same
    rw [second] at trimmed
    obtain ⟨texts, t, ran⟩ := exists_run_nodes registry positive s .ifConsequence kept
    rw [statements, bind_assoc, run_bind_ok ran]
    refine ⟨_, t, rfl, kept, texts, trimmed, addsAll_of_run ran, ?_⟩
    rw [first, if_neg (by simpa using nonempty)]

theorem exists_run_ifClause (s : CompileState) (indent : Text) (n : Node) :
    ∃ text t, run s (ifClause (.ofFuel registry fuel) indent n) = (.ok text, t) := by
  rw [ifClause]
  split
  · rw [elifClause]
    split
    · exact ⟨_, s, rfl⟩
    · next body _ =>
      obtain ⟨found, t, first, _⟩ := exists_run_conditionOf registry positive s _
      obtain ⟨text, u, second, _⟩ := exists_run_block registry positive t indent body
      rw [run_bind_ok first, run_bind_ok second]
      exact ⟨_, u, rfl⟩
  · split
    · obtain ⟨text, t, ran, _⟩ :=
        exists_run_block registry positive s indent (afterKeyword "else" n.children)
      rw [run_bind_ok ran]
      exact ⟨_, t, rfl⟩
    · exact ⟨_, s, rfl⟩

omit positive in
/-- Once the first body is over, only the end is needed. -/
theorem needs_clauses (closed : Bool) (n : Node) (kinds : List Kind) :
    (IfStage.clauses (closed || n.kind == .token "fi")).needs.Sublist kinds ↔
      (IfStage.clauses closed).needs.Sublist (n.kind :: kinds) := by
  cases closed with
  | true => simp [IfStage.needs]
  | false =>
    by_cases isFi : n.kind = .token "fi"
    · simp [IfStage.needs, isFi]
    · simp [IfStage.needs, isFi, Ne.symm isFi]

omit positive in
theorem needs_inner {n : Node} (inner : isBoundary n = false) (kinds : List Kind) :
    [Kind.token "fi"].Sublist kinds ↔ [Kind.token "fi"].Sublist (n.kind :: kinds) := by
  have other : Kind.token "fi" ≠ n.kind := by
    intro same
    rw [isBoundary_fi same.symm] at inner
    cases inner
  rw [cons_sublist_cons_iff, if_neg other]

/-- A step does not fault, and a mark that is needed is not missed. -/
theorem exists_run_ifStep (s : CompileState) (indent : Text) (stage : IfStage) (n : Node)
    (kinds : List Kind) :
    ∃ next text t, run s (ifStep (.ofFuel registry fuel) indent stage n) = (.ok (next, text), t) ∧
      (next.needs.Sublist kinds ↔ stage.needs.Sublist (n.kind :: kinds)) := by
  cases stage with
  | start =>
    refine ⟨_, _, s, rfl, ?_⟩
    by_cases isIf : n.kind = .token "if"
    · simp [isIf, IfStage.needs]
    · simp [isIf, IfStage.needs, cons_sublist_cons_iff, Ne.symm isIf]
  | condition nodes =>
    by_cases isThen : n.kind = .token "then"
    · obtain ⟨found, t, ran, _⟩ := exists_run_conditionOf registry positive s nodes
      rw [ifStep_then isThen, run_bind_ok ran]
      refine ⟨_, _, t, rfl, ?_⟩
      simp [isThen, IfStage.needs]
    · rw [ifStep_condition isThen]
      refine ⟨_, _, s, rfl, ?_⟩
      simp [IfStage.needs, cons_sublist_cons_iff, Ne.symm isThen]
  | consequence nodes =>
    cases boundary : isBoundary n with
    | false =>
      rw [ifStep_body boundary]
      exact ⟨_, _, s, rfl, needs_inner boundary kinds⟩
    | true =>
      obtain ⟨body, t, first, _⟩ := exists_run_block registry positive s indent nodes
      obtain ⟨text, u, second⟩ := exists_run_ifClause registry positive t indent n
      rw [ifStep_boundary boundary, run_bind_ok first, run_bind_ok second]
      exact ⟨_, _, u, rfl, needs_clauses false n kinds⟩
  | clauses closed =>
    cases boundary : isBoundary n with
    | false =>
      rw [ifStep_between boundary]
      refine ⟨_, _, s, rfl, ?_⟩
      cases closed with
      | true => simp [IfStage.needs]
      | false => exact needs_inner boundary kinds
    | true =>
      obtain ⟨text, t, ran⟩ := exists_run_ifClause registry positive s indent n
      rw [ifStep_clause boundary, run_bind_ok ran]
      exact ⟨_, _, t, rfl, needs_clauses closed n kinds⟩

/-- Something is written exactly where no mark is missing. -/
theorem exists_run_ifFrom (s : CompileState) (indent : Text) (stage : IfStage) (written : Text)
    (nodes : List Node) :
    ∃ found t, run s (ifFrom (.ofFuel registry fuel) indent stage written nodes) = (.ok found, t) ∧
      (found.isSome ↔ stage.needs.Sublist (nodes.map Node.kind)) := by
  induction nodes generalizing s stage written with
  | nil =>
    refine ⟨_, s, rfl, ?_⟩
    rw [List.map_nil, List.sublist_nil]
    cases stage with
    | clauses closed => cases closed <;> simp [IfStage.needs]
    | _ => simp [IfStage.needs]
  | cons n nodes ih =>
    obtain ⟨next, text, t, step, same⟩ :=
      exists_run_ifStep registry positive s indent stage n (nodes.map Node.kind)
    obtain ⟨found, u, ran, known⟩ := ih t next (written ++ text)
    rw [ifFrom, run_bind_ok step, List.map_cons]
    exact ⟨found, u, ran, known.trans same⟩

/-! Statements with branches -/

/-- The clauses are written one after the other. -/
theorem exists_run_clauses {others : List (List Node × List Node)} {last : Option (List Node)}
    (clauses : Clauses nodes others last) (s : CompileState) (indent written : Text) :
    ∃ texts final t,
      run s (ifFrom (.ofFuel registry fuel) indent (.clauses false) written nodes) =
        (.ok (some (written ++ (Chain.ending indent texts final).flatMap Snippet.text)), t) ∧
      Followed (.ofFuel registry fuel) indent s others last texts final t := by
  induction clauses generalizing s written with
  | fi kind =>
    rw [ifFrom_fi kind]
    refine ⟨[], none, s, ?_, .closed s⟩
    simp [Chain.ending, Chain.closing, Snippet.text, run_pure]
  | @otherwise n fi nodes own kind =>
    have going : (n.kind == .token "fi") = false := by
      rw [own.1]
      decide
    obtain ⟨text, t, ran, body⟩ := exists_run_block registry positive s indent nodes
    refine ⟨[], some text, t, ?_, .otherwise body⟩
    rw [ifFrom_clause (isBoundary_else own), ifClause_else own, going, bind_assoc, run_bind_ok ran,
      pure_bind, ifFrom_fi kind]
    simp [Chain.ending, Chain.closing, Snippet.text, run_pure]
  | @elif n condition inner nodes others last own rest ih =>
    have going : (n.kind == .token "fi") = false := by
      rw [own.1]
      decide
    obtain ⟨found, t, first, isCondition⟩ := exists_run_conditionOf registry positive s condition
    obtain ⟨text, u, second, body⟩ := exists_run_block registry positive t indent inner
    obtain ⟨texts, final, v, ran, followed⟩ :=
      ih u (written ++ (Chain.elifPieces indent (found, text)).flatMap Snippet.text)
    refine ⟨(found, text) :: texts, final, v, ?_, .elif isCondition body followed⟩
    rw [ifFrom_clause (isBoundary_elif own), ifClause_elif own, going, bind_assoc,
      run_bind_ok first, bind_assoc, run_bind_ok second, pure_bind, ran]
    simp [Chain.ending]

theorem exists_run_branches {branches : Branches} (shape : IsIf n.children branches)
    (s : CompileState) :
    ∃ chain t, chain.indent = n.indent ∧ Assembled (.ofFuel registry fuel) s branches chain t ∧
      run s (ifFrom (.ofFuel registry fuel) n.indent .start [] n.children) =
      (.ok (some chain.text), t) := by
  obtain ⟨keyword, mark, clauses, isIf, isThen, children, plain, inner, shape⟩ := shape
  obtain ⟨found, t, first, condition⟩ :=
    exists_run_conditionOf registry positive s branches.condition
  obtain ⟨text, u, second, body⟩ := exists_run_block registry positive t n.indent branches.body
  obtain ⟨texts, final, v, ran, followed⟩ := exists_run_clauses registry positive shape u n.indent
    ("// " ++ found.source ++ "\n" ++ found.indent ++ "if (" ++ found.text ++ ") \x7b\n" ++ text)
  refine ⟨⟨n.indent, found, text, texts, final⟩, v, rfl, .mk condition body followed, ?_⟩
  obtain ⟨head, rest, rfl, boundary⟩ := shape.exists_boundary
  have start : ifStep (.ofFuel registry fuel) n.indent .start keyword =
      pure (.condition [], []) := by
    simp [ifStep, isIf]
  rw [children, ifFrom, start, pure_bind]
  dsimp only
  rw [List.append_nil, ifFrom_condition plain, List.nil_append, ifFrom, ifStep_then isThen,
    bind_assoc, run_bind_ok first, pure_bind]
  dsimp only
  rw [ifFrom_body inner, List.nil_append, ifFrom_boundary boundary, run_bind_ok second]
  refine ran.trans ?_
  simp [Chain.text, Chain.pieces, Chain.opening, Snippet.text]

end

theorem not_fallsBack_push (t : CompileState) (text : Text) :
    ¬(t.push (.ofFields [(.statement, .text text)])).FallsBack t.fragments.size := by
  rintro ⟨marked, same⟩
  simp [CompileState.push, Fragment.ofFields] at same

/-- An if statement without its marks is a marker. One with branches becomes a chain of them in
source order, in which no brace is left open. -/
theorem ifStatement_reassembled (registry : Registry) {fuel : Nat} (positive : 0 < fuel)
    (s : CompileState)
    (n : Node) :
    (∃ id t, run s (ifStatement (.ofFuel registry fuel) n) = (.ok id, t) ∧
      (t.FallsBack id ↔
        ¬[Kind.token "if", .token "then", .token "fi"].Sublist (n.children.map Node.kind))) ∧
    ∀ branches, IsIf n.children branches → ∃ chain t,
      Assembled (.ofFuel registry fuel) s branches chain t ∧
      run s (ifStatement (.ofFuel registry fuel) n) =
        (.ok t.fragments.size, t.push (.ofFields [(.statement, .text chain.text)])) ∧
      chain.indent = n.indent ∧
      chain.pieces.filter (· ∈ Chain.heads) = .fixed "if (" ::
        (List.replicate branches.others.length (.fixed "\x7d else if (") ++
          List.replicate branches.last.toList.length (.fixed "\x7d else \x7b\n")) ∧
      depth? 0 (Chain.skeleton chain.pieces) = some 0 := by
  constructor
  · obtain ⟨found, t, ran, marks⟩ :=
      exists_run_ifFrom registry positive s n.indent .start [] n.children
    rw [ifStatement, run_bind_ok ran]
    rw [IfStage.needs] at marks
    rw [← marks]
    cases found with
    | none =>
      obtain ⟨id, u, gave⟩ : ∃ id u, run t (giveUp n "malformed if statement") = (.ok id, u) :=
        ⟨_, _, rfl⟩
      exact ⟨id, u, gave, by simpa using of_run_giveUp gave⟩
    | some text =>
      refine ⟨_, _, run_add _, ?_⟩
      simpa using not_fallsBack_push t text
  · intro branches shape
    obtain ⟨chain, t, indent, assembled, ran⟩ := exists_run_branches registry positive shape s
    obtain ⟨condition, body, others⟩ := assembled
    refine ⟨chain, t, .mk condition body others, ?_, indent, ?_, chain.depth?_skeleton⟩
    · rw [ifStatement, run_bind_ok ran]
      exact run_add _
    · obtain ⟨count, final⟩ := others.count
      rw [chain.filter_heads, count, final]

theorem ifStatement_reassembled_elif_else :
    let token (text : Text) (start : Int) : Node :=
      ⟨.token text, text, [], [], start, start + text.length⟩
    let nodes (name : Text) (start : Int) : List Node :=
      let word : Node := ⟨.word, name, [], [], start + 1, start + 2⟩
      [⟨.whitespace, " ", [], [], start, start + 1⟩,
        { word with
          kind := .command, children := [{ word with kind := .commandName, children := [word] }] },
        token ";" (start + 2)]
    let elif : Node := ⟨.elifClause, "elif c;then d;",
      token "elif" 12 :: (nodes "c" 16 ++ token "then" 19 :: nodes "d" 23), [], 12, 26⟩
    let otherwise : Node := ⟨.elseClause, "else e;", token "else" 26 :: nodes "e" 30, [], 26, 33⟩
    let n : Node := ⟨.ifStatement, "if a;then b;elif c;then d;else e;fi",
      token "if" 0 :: (nodes "a" 2 ++ token "then" 5 ::
        (nodes "b" 9 ++ [elif, otherwise, token "fi" 33])),
      [], 0, 35⟩
    let branches : Branches :=
      ⟨nodes "a" 2, nodes "b" 9, [(nodes "c" 16, nodes "d" 23)], some (nodes "e" 30)⟩
    IsIf n.children branches ∧ ∃ chain t, Assembled (.ofFuel .standard 4) .empty branches chain t ∧
      run .empty (ifStatement (.ofFuel .standard 4) n) =
        (.ok t.fragments.size, t.push (.ofFields [(.statement, .text chain.text)])) ∧
      chain.pieces.filter (· ∈ Chain.heads) =
        [.fixed "if (", .fixed "\x7d else if (", .fixed "\x7d else \x7b\n"] := by
  intro token nodes elif otherwise n branches
  have own : elif.IsElif (nodes "c" 16) (nodes "d" 23) :=
    ⟨rfl, token "elif" 12, token "then" 19, rfl, rfl, rfl, by decide⟩
  have last : otherwise.IsElse (nodes "e" 30) := ⟨rfl, token "else" 26, rfl, rfl⟩
  have shape : IsIf n.children branches :=
    ⟨token "if" 0, token "then" 5, [elif, otherwise, token "fi" 33], rfl, rfl,
      rfl, by decide, by decide, .elif own (.otherwise last rfl)⟩
  obtain ⟨chain, t, assembled, ran, _, heads, _⟩ :=
    (ifStatement_reassembled .standard (by decide : 0 < 4) .empty n).2 branches shape
  exact ⟨shape, chain, t, assembled, ran, heads⟩

/-- These are the nodes of a script that was read. -/
example : (Node.parse "if a;then b;elif c;then d;else e;fi").toOption.map (fun root =>
    root.children.flatMap fun n => n.children.map Node.kind) =
      some [.token "if", .whitespace, .command, .token ";", .token "then", .whitespace, .command,
        .token ";", .elifClause, .elseClause, .token "fi"] := by decide +kernel

end Compile

end ShellToDeno
