import ShellToDeno.Proofs.Branches
import ShellToDeno.Proofs.Quoting.Literals
import ShellToDeno.Proofs.Tree.Gaps
import ShellToDeno.Proofs.Tree.Queries

/-!
# Comments that quote the script

The comments of a script, the conditions of its branches and the headers of its loops are kept as
`//` comments, each of which is to end at the newline written after it. None has a newline of its
own: a comment of a script is a part of one line (`lineComments_of_parse`), and in the others
newlines become blanks (`newline_not_mem_oneLine`). But a line of the output also ends at bytes that
are nothing special in a script, and those are copied. Where there are any the comment ends early
(`comments_end_iff`), and what is left of the quoted text stands as code.
-/
namespace ShellToDeno

namespace Js

/-- What ends a line of the output but not one of a script: a carriage return, a line separator and
a paragraph separator. -/
def foreignTerminators : List Text := [[13], [226, 128, 168], [226, 128, 169]]

def lineTerminators : List Text := [Ascii.newline] :: foreignTerminators

/-- What is left of a line, and the rest of the text from its terminator on. -/
def cutLine : Text → Text × Text
  | [] => ([], [])
  | b :: rest =>
    if lineTerminators.any (·.isPrefixOf (b :: rest)) then ([], b :: rest)
    else (b :: (cutLine rest).1, (cutLine rest).2)

/-- A comment that ends at the newline written after it, whatever comes next. -/
def EndsAtNewline (comment : Text) : Prop :=
  ∀ rest, cutLine (comment ++ Ascii.newline :: rest) = (comment, Ascii.newline :: rest)

def HasAny (marks : List Text) (t : Text) : Prop := ∃ mark ∈ marks, mark <:+: t

theorem hasAny_cons {marks : List Text} {b : UInt8} {t : Text} :
    HasAny marks (b :: t) ↔ (∃ mark ∈ marks, mark <+: b :: t) ∨ HasAny marks t := by
  simp only [HasAny, List.infix_cons_iff, and_or_left, exists_or]

theorem hasAny_lineTerminators {t : Text} :
    HasAny lineTerminators t ↔ Ascii.newline ∈ t ∨ HasAny foreignTerminators t := by
  simp [HasAny, lineTerminators, List.singleton_infix_iff]

theorem prefix_append_newline {mark t rest : Text} (plain : Ascii.newline ∉ mark) :
    mark <+: t ++ Ascii.newline :: rest ↔ mark <+: t := by
  induction t generalizing mark with
  | nil =>
    cases mark with
    | nil => simp
    | cons b mark =>
      have other : b ≠ Ascii.newline := fun same => plain (by simp [same])
      simp [List.cons_prefix_cons, other]
  | cons a t ih =>
    cases mark with
    | nil => simp
    | cons b mark =>
      rw [List.cons_append, List.cons_prefix_cons, List.cons_prefix_cons,
        ih fun member => plain (List.mem_cons_of_mem b member)]

/-- A newline after a line does not complete a terminator that begins inside it. -/
theorem terminator_append_newline {b : UInt8} {t rest : Text} :
    lineTerminators.any (·.isPrefixOf (b :: (t ++ Ascii.newline :: rest))) = true ↔
      ∃ mark ∈ lineTerminators, mark <+: b :: t := by
  have marks : ∀ mark ∈ lineTerminators, mark = [Ascii.newline] ∨ Ascii.newline ∉ mark := by decide
  rw [List.any_eq_true]
  refine exists_congr fun mark => and_congr_right fun member => ?_
  rw [List.isPrefixOf_iff_prefix]
  rcases marks mark member with rfl | plain
  · simp [List.cons_prefix_cons]
  · rw [← List.cons_append, prefix_append_newline plain]

theorem endsAtNewline_iff {comment : Text} :
    EndsAtNewline comment ↔ ¬HasAny lineTerminators comment := by
  suffices here : ∀ rest, cutLine (comment ++ Ascii.newline :: rest) =
      (comment, Ascii.newline :: rest) ↔
      ¬HasAny lineTerminators comment from
    ⟨fun ends => (here []).1 (ends []), fun none rest => (here rest).2 none⟩
  intro rest
  induction comment with
  | nil => simp [cutLine, HasAny, lineTerminators, foreignTerminators]
  | cons b comment ih =>
    rw [hasAny_cons, List.cons_append, cutLine]
    split
    · next ended =>
      exact iff_of_false (by simp) (not_not.2 (.inl (terminator_append_newline.1 ended)))
    · next going =>
      rw [terminator_append_newline] at going
      rw [← Prod.eta (cutLine _), Prod.mk.injEq] at ih
      simp [going, ih]

end Js

/-! Comments of a script -/

namespace Node

/-- No comment in a tree goes over the end of a line. -/
def LineComments (n : Node) : Prop :=
  ∀ place m, n.at? place = some m → m.kind = .comment → Ascii.newline ∉ m.text

theorem LineComments.mk {n : Node} (own : n.kind = .comment → Ascii.newline ∉ n.text)
    (inside : ∀ child ∈ n.children, child.LineComments) : n.LineComments := by
  intro place m found
  cases place with
  | nil =>
    obtain rfl := Option.some.inj found
    exact own
  | cons i place =>
    obtain ⟨child, nth, below⟩ := Option.bind_eq_some_iff.1 found
    exact inside child (List.mem_of_getElem? nth) place m below

end Node

theorem Source.lineComments_builds (s : Source) : s.Builds Node.LineComments := by
  refine .of_leaf (fun leaf => ?_) fun grammar _ _ _ _ inside => .mk ?_ inside
  · cases leaf with
    | mk _ _ _ line => exact .mk line (List.forall_mem_nil _)
  · rintro rfl
    cases grammar

theorem Node.lineComments_of_parse {source : Text} {root : Node}
    (accepted : Node.parse source = .ok root) :
    root.LineComments :=
  Node.of_parse accepted fun script => (Source.ofScript source script).lineComments_builds

namespace Compile

/-- What becomes of a byte that is put on one line. -/
def blanked (b : UInt8) : UInt8 := if b = Ascii.newline then ' ' else b

theorem oneLine_eq_map (t : Text) : oneLine t = t.map blanked := by
  induction t with
  | nil => rfl
  | cons b t ih =>
    refine (Text.replaceAll_cons Ascii.newline " " b t).trans ?_
    rw [List.map_cons, ← ih, blanked]
    split <;> rfl

theorem newline_not_mem_oneLine (t : Text) : Ascii.newline ∉ oneLine t := by
  rw [oneLine_eq_map, List.mem_map]
  rintro ⟨b, _, same⟩
  rw [blanked] at same
  split at same
  · exact absurd same (by decide)
  · contradiction

/-- A piece without blanks and newlines is the same on one line. -/
theorem map_blanked_eq_iff {piece mark : Text} (plain : ∀ b ∈ mark, b ≠ Ascii.newline ∧ b ≠ ' ') :
    piece.map blanked = mark ↔ piece = mark := by
  have kept {t : Text} (other : ∀ b ∈ t, b ≠ Ascii.newline) : t.map blanked = t :=
    (List.map_congr_left fun b member => if_neg (other b member)).trans (List.map_id t)
  constructor
  · rintro rfl
    refine (kept fun b member same => ?_).symm
    exact (plain _ (List.mem_map_of_mem member)).2 (if_pos same)
  · rintro rfl
    exact kept fun b member => (plain b member).1

theorem hasAny_oneLine {t : Text} :
    Js.HasAny Js.foreignTerminators (oneLine t) ↔ Js.HasAny Js.foreignTerminators t := by
  have marks : ∀ mark ∈ Js.foreignTerminators, ∀ b ∈ mark, b ≠ Ascii.newline ∧ b ≠ ' ' := by
    decide +kernel
  refine exists_congr fun mark => and_congr_right fun member => ?_
  have same {piece : Text} : piece.map blanked = mark ↔ piece = mark :=
    map_blanked_eq_iff (marks mark member)
  rw [oneLine_eq_map]
  constructor
  · rintro ⟨before, after, split⟩
    obtain ⟨front, back, rfl, first, _⟩ := List.map_eq_append_iff.1 split.symm
    obtain ⟨start, piece, rfl, _, middle⟩ := List.map_eq_append_iff.1 first
    rw [same.1 middle]
    exact ⟨start, back, rfl⟩
  · rintro ⟨before, after, rfl⟩
    refine ⟨before.map blanked, after.map blanked, ?_⟩
    rw [List.map_append, List.map_append, same.2 rfl]

theorem endsAtNewline_oneLine {t : Text} :
    Js.EndsAtNewline (oneLine t) ↔ ¬Js.HasAny Js.foreignTerminators t := by
  rw [Js.endsAtNewline_iff, Js.hasAny_lineTerminators, hasAny_oneLine]
  simp [newline_not_mem_oneLine]

/-- A comment of the script without its sign. -/
theorem endsAtNewline_comment {text : Text} (line : Ascii.newline ∉ text) :
    Js.EndsAtNewline (Text.cutStart "#" text) ↔ ¬Js.HasAny Js.foreignTerminators text := by
  rw [Js.endsAtNewline_iff, Js.hasAny_lineTerminators]
  by_cases signed : "#" <+: text
  · obtain ⟨rest, rfl⟩ := signed
    have none : ∀ mark ∈ Js.foreignTerminators, ¬mark <+: '#' :: rest := by
      simp [Js.foreignTerminators, List.cons_prefix_cons, show '#'.toUInt8 = 35 from rfl]
    have inner : Ascii.newline ∉ rest := fun member => line (List.mem_append_right _ member)
    have same : Js.HasAny Js.foreignTerminators ("#" ++ rest) ↔
        Js.HasAny Js.foreignTerminators rest :=
      Js.hasAny_cons.trans (or_iff_right fun found => by
        obtain ⟨mark, member, isPrefix⟩ := found
        exact none mark member isPrefix)
    rw [Text.cutStart_append, same]
    simp [inner]
  · have whole : Text.cutStart "#" text = text := by
      rw [Text.cutStart, Text.cutStart?, if_neg (by rwa [List.isPrefixOf_iff_prefix]),
        Option.getD_none]
    rw [whole]
    simp [line]

/-! What quotes a text of the script -/

/-- A step gives a fragment with a single statement. -/
def States (s : CompileState) (x : Compile FragmentId) (text : Text) : Prop :=
  ∃ t : CompileState, run s x = (.ok t.fragments.size,
    t.push (.ofFields [(.statement, .text text)]))

/-- The comment before a condition shows its nodes on one line. -/
def QuotesNodes (nodes : List Node) (condition : SourceCondition) : Prop :=
  ∃ kept, IsTrimmed nodes kept ∧ condition.source = oneLine (Arguments.textOf kept) ∧
    (Js.EndsAtNewline condition.source ↔ ¬Js.HasAny Js.foreignTerminators (Arguments.textOf kept))

/-- The items that a loop goes over, if it has any. -/
def itemsOf? (header : List Node) : Option (List Node) :=
  match header.dropWhile fun child => child.kind != .token "in" with
  | [] => none
  | _ :: rest => some (rest.filter fun child => child.kind != .token ";")

/-- Items that need not be split when the program runs. -/
def IsStatic (items : List Node) : Prop :=
  areLiteral items = true ∨ ∃ only, Arguments.groups items = [only] ∧
    (isAllArguments (Arguments.textOf only) = true ∨
      (countingRange? (Arguments.textOf only)).isSome)

/-- The header of a loop as the comment before it shows it. -/
def headerText (header : List Node) : Text :=
  Utf8.trim (Text.cutEnd ";" (Utf8.trim (Arguments.textOf header)))

/-- What stands before the body of a loop: over items that have to be split it is commented. -/
inductive Front (indent : Text) (header : List Node) : Text → Prop where
  | plain (more : Text) (known : ∀ items ∈ itemsOf? header, IsStatic items) :
    Front indent header ("for (" ++ more)
  | commented (more : Text) :
    Front indent header ("// " ++ oneLine (headerText header) ++ "\n" ++ indent ++ "for (" ++ more)

variable {c : Compiler} {s t : CompileState} {n : Node}

theorem IsCondition.quotes {nodes : List Node} {condition : SourceCondition}
    (found : IsCondition c s nodes condition t) : QuotesNodes nodes condition := by
  cases found with
  | only trimmed => exact ⟨_, trimmed, rfl, endsAtNewline_oneLine⟩
  | several trimmed => exact ⟨_, trimmed, rfl, endsAtNewline_oneLine⟩

theorem Followed.quotes {indent : Text} {others : List (List Node × List Node)}
    {last : Option (List Node)}
    {texts : List (SourceCondition × Text)} {final : Option Text}
    (followed : Followed c indent s others last texts final t) :
    List.Forall₂ (fun branch written => QuotesNodes branch.1 written.1) others texts := by
  induction followed with
  | closed => exact .nil
  | otherwise => exact .nil
  | elif condition _ _ ih => exact .cons condition.quotes ih

theorem of_run_iteratingLoop {target comment front : Text} {groups : List (List Node)}
    (ran : run s (iteratingLoop c target comment groups) = (.ok (some front), t)) :
    ∃ more, front = comment ++ "for (" ++ more := by
  obtain ⟨_, _, _, ran⟩ := of_run_bind ran
  obtain ⟨values, _, _, ran⟩ := of_run_bind ran
  split at ran
  · cases ran
  · cases ran
    exact ⟨_, by simp only [List.append_assoc]; rfl⟩
  · cases ran
    exact ⟨_, by simp only [List.append_assoc]; rfl⟩

theorem of_run_itemsHeader {target comment front : Text} {items : List Node}
    (ran : run s (itemsHeader c target comment items) = (.ok (some front), t)) :
    (areLiteral items = true ∧ ∃ more, front = "for (" ++ more) ∨
      ∃ more, front = comment ++ "for (" ++ more := by
  obtain ⟨unified, _, _, ran⟩ := of_run_bind ran
  split at ran
  · next literal =>
    obtain ⟨array, _, _, ran⟩ := of_run_bind ran
    split at ran
    · cases ran
      exact .inl ⟨literal, _, by simp only [List.append_assoc]; rfl⟩
    · exact .inr (of_run_iteratingLoop ran)
  · exact .inr (of_run_iteratingLoop ran)

theorem of_run_forHeader {header : List Node} {front : Text}
    (ran : run s (forHeader c n header (headerText header)) = (.ok (some front), t)) :
    Front n.indent header front := by
  rw [forHeader] at ran
  split at ran
  · next name _ =>
    obtain ⟨target, _, _, ran⟩ := of_run_bind ran
    dsimp only at ran
    split at ran
    · next none =>
      cases ran
      refine .plain _ fun items given => ?_
      rw [itemsOf?, none] at given
      cases given
    · next mark rest found =>
      have items : itemsOf? header = some (rest.filter fun child => child.kind != .token ";") := by
        rw [itemsOf?, found]
      have known (static : IsStatic (rest.filter fun child => child.kind != .token ";")) :
          ∀ items ∈ itemsOf? header, IsStatic items := by
        rw [items]
        rintro _ ⟨⟩
        exact static
      have looped {u : CompileState} (ran : run u (itemsHeader c target
          ("// " ++ oneLine (headerText header) ++ "\n" ++ n.indent)
          (rest.filter fun child => child.kind != .token ";")) = (.ok (some front), t)) :
          Front n.indent header front := by
        rcases of_run_itemsHeader ran with ⟨literal, more, rfl⟩ | ⟨more, rfl⟩
        · exact .plain more (known (.inl literal))
        · exact .commented more
      clear found items
      generalize rest.filter (fun child => child.kind != .token ";") = items at ran known looped
      split at ran
      · next only alone =>
        dsimp only [Option.map_some, Option.getD_some, Option.bind_some] at ran
        split at ran
        · next all =>
          cases ran
          exact .plain _ (known (.inr ⟨only, alone, .inl all⟩))
        split at ran
        · next range counted =>
          cases ran
          have first : ∃ more, countingLoop target range = "for (" ++ more :=
            ⟨_, by rw [countingLoop]; simp only [List.append_assoc]; rfl⟩
          obtain ⟨more, same⟩ := first
          rw [same]
          exact .plain more (known (.inr ⟨only, alone, .inr (by rw [counted]; rfl)⟩))
        · exact looped ran
      · exact looped ran
  · cases ran

theorem of_run_forStatement {id : FragmentId} (kind : n.kind = .forStatement)
    (ran : run s (forStatement c n) = (.ok id, t)) :
    t.FallsBack id ∨ ∃ header body front group, loopParts? n = some (header, body) ∧
      Front n.indent header front ∧ States s (forStatement c n) (front ++ group) := by
  have whole := ran
  rw [forStatement] at ran
  split at ran
  · next header body parts =>
    rw [if_neg (by rw [kind]; decide)] at ran
    obtain ⟨found, u, first, ran⟩ := of_run_bind ran
    cases found with
    | none => exact .inl (of_run_giveUp ran)
    | some front =>
      obtain ⟨group, v, _, ran⟩ := of_run_bind ran
      cases ran
      exact .inr ⟨header, body, front, group, parts, of_run_forHeader first, v, whole⟩
  · exact .inl (of_run_giveUp ran)

theorem States.node {text : Text} {context : Context}
    (states : States s (branch c n context) text) :
    States s (node c n context) text := by
  obtain ⟨t, ran⟩ := states
  exact ⟨t, by rw [Compile.node, run_tryCatch, ran]⟩

theorem comment_states (s : CompileState) (n : Node) :
    (n.start = 0 ∧ "#!" <+: n.text ∧ States s (comment n) []) ∨
      States s (comment n) ("//" ++ Text.cutStart "#" n.text) := by
  rw [comment]
  split
  · next first =>
    rw [Bool.and_eq_true, beq_iff_eq] at first
    exact .inl ⟨first.1, List.isPrefixOf_iff_prefix.1 first.2, _, rfl⟩
  · exact .inr ⟨_, rfl⟩

/-- Each comment that quotes a text of a script ends at the newline written after it exactly where
that text has none of the terminators that only the output knows. -/
theorem comments_end_iff (registry : Registry) (fuel : Nat) (s : CompileState) (context : Context)
    {source : Text} {root n : Node} {place : Place} (parsed : Node.parse source = .ok root)
    (found : root.at? place = some n) :
    let compiled := (Compiler.ofFuel registry (fuel + 2)).compile n context
    (n.kind = .comment →
      (n.start = 0 ∧ "#!" <+: n.text ∧ States s compiled []) ∨
        States s compiled ("//" ++ Text.cutStart "#" n.text) ∧
        (Js.EndsAtNewline (Text.cutStart "#" n.text) ↔ ¬Js.HasAny Js.foreignTerminators n.text)) ∧
    (n.kind = .ifStatement → ∀ branches, IsIf n.children branches →
      ∃ chain : Chain, States s compiled chain.text ∧
      QuotesNodes branches.condition chain.condition ∧
        List.Forall₂ (fun branch written => QuotesNodes branch.1 written.1) branches.others
        chain.others) ∧
    (n.kind = .forStatement →
      (∃ id t, run s compiled = (.ok id, t) ∧ t.FallsBack id) ∨
        ∃ header body front group, loopParts? n = some (header, body) ∧
          States s compiled (front ++ group) ∧ Front n.indent header front ∧
          (Js.EndsAtNewline (oneLine (headerText header)) ↔
            ¬Js.HasAny Js.foreignTerminators (headerText header))) := by
  intro compiled
  refine ⟨fun kind => ?_, fun kind branches shape => ?_, fun kind => ?_⟩
  · have branch : Compile.branch (.ofFuel registry (fuel + 1)) n context = comment n := by
      rw [Compile.branch, kind]
    have line := Node.lineComments_of_parse parsed place n found kind
    rcases comment_states s n with ⟨first, sign, states⟩ | states
    · exact .inl ⟨first, sign, States.node (branch ▸ states)⟩
    · exact .inr ⟨States.node (branch ▸ states), endsAtNewline_comment line⟩
  · have branch : Compile.branch (.ofFuel registry (fuel + 1)) n context =
        ifStatement (.ofFuel registry (fuel + 1)) n := by
      rw [Compile.branch, kind]
    obtain ⟨chain, t, _, assembled, ran⟩ := exists_run_branches registry (Nat.succ_pos fuel) shape s
    have states : States s (ifStatement (.ofFuel registry (fuel + 1)) n) chain.text :=
      ⟨t, by rw [ifStatement, run_bind_ok ran]; exact run_add _⟩
    obtain ⟨condition, _, others⟩ := assembled
    exact ⟨chain, States.node (branch ▸ states), condition.quotes, others.quotes⟩
  · have branch : Compile.branch (.ofFuel registry (fuel + 1)) n context =
        forStatement (.ofFuel registry (fuel + 1)) n := by
      rw [Compile.branch, kind]
    obtain ⟨id, t, ran, _⟩ := Compiler.exists_compile registry (Nat.succ_pos (fuel + 1)) s n context
    rcases of_run_node ran with ended | marker
    · rw [branch] at ended
      rcases of_run_forStatement kind ended with marker |
        ⟨header, body, front, group, parts, known, states⟩
      · exact .inl ⟨id, t, ran, marker⟩
      · exact .inr ⟨header, body, front, group, parts, States.node (branch ▸ states), known,
          endsAtNewline_oneLine⟩
    · exact .inl ⟨id, t, ran, marker⟩

/-- A carriage return ends the comment of a script, and a call is left. -/
theorem comments_end_iff_carriage_return : ∃ root n, Node.parse "# a\rb()\n" = .ok root ∧
    root.at? [0] = some n ∧
    States .empty ((Compiler.ofFuel .standard 2).compile n .program) "// a\rb()" ∧
    ¬Js.EndsAtNewline " a\rb()" ∧ Js.cutLine "// a\rb()\n" =
      (("// a", "\rb()\n") : Text × Text) := by
  have read : (Node.parse "# a\rb()\n").toOption.map (fun root =>
      (root.at? [0]).map fun n => (n.kind, n.text)) =
        some (some (.comment, ("# a\rb()" : Text))) := by
    decide +kernel
  cases parsed : Node.parse "# a\rb()\n" with
  | error refusal => rw [parsed] at read; cases read
  | ok root =>
    rw [parsed] at read
    obtain ⟨n, found, shown⟩ := Option.map_eq_some_iff.1 (Option.some.inj read)
    obtain ⟨kind, text⟩ := Prod.mk.inj shown
    refine ⟨root, n, rfl, found, ?_⟩
    rcases (comments_end_iff .standard 0 .empty .program parsed found).1 kind with
      ⟨_, shebang, _⟩ | ⟨states, ends⟩
    · rw [text] at shebang
      exact absurd shebang (by decide)
    · rw [text] at states ends
      exact ⟨states, fun closed => ends.1 closed ⟨[13], by decide +kernel, by decide⟩, by decide⟩

/-- So it is before branches and loops. -/
example : (Node.parse "if a '\r'\nthen b; fi\nfor x in $c '\r'; do d; done").toOption.bind
    (fun root =>
      (run .empty (statements (.ofFuel .standard 20) .program root.children)).1.toOption) =
      some (("// a '\r'\nif (((await $`a '\\r'`).code == 0)) \x7b\n" : Text) ++
        "    await $`b`\n\x7d\n" ++ "// for x in $c '\r'\nfor (env.x of [...iterateOver(env.c), " ++
        "...iterateOver(`\\r`)]) \x7b\n    await $`d`\n\x7d") := by decide +kernel

end Compile

end ShellToDeno
