import ShellToDeno.Tree.Parse

/-!
# How trees are built

Every node of a tree over a source is a leaf that the grammar gives, or it is built over nodes that
were made before it; tokens and layout come in only through the gaps that building fills. So what
holds of such leaves and is kept by building holds of the whole tree (`statements_all`).
-/
namespace ShellToDeno

def Kind.isToken : Kind → Bool
  | token _ => true
  | _ => false

/-- Kinds that the grammar gives to its pieces, which are neither tokens nor layout. -/
def Kind.isGrammar : Kind → Bool
  | token _ | whitespace | text | comment => false
  | _ => true

namespace Source

variable {s : Source} {P : Node → Prop}

theorem mem_inOrder {n : Node} {nodes : List Node} (member : n ∈ inOrder nodes) : n ∈ nodes := by
  have placed (m : Node) (others : List Node) (member : n ∈ place m others) : n ∈ m :: others := by
    induction others with
    | nil => exact member
    | cons other rest ih =>
      rw [place] at member
      split at member
      · exact member
      · rcases List.mem_cons.mp member with rfl | member
        · simp
        · rcases List.mem_cons.mp (ih member) with rfl | member
          · exact List.mem_cons_self
          · simp [member]
  induction nodes with
  | nil => exact member
  | cons m rest ih =>
    rcases List.mem_cons.mp (placed m (inOrder rest) member) with rfl | member
    · exact List.mem_cons_self
    · exact List.mem_cons_of_mem m (ih member)

/-- What holds of the leaves that the grammar gives and of what is built over nodes it holds of. -/
structure Builds (s : Source) (P : Node → Prop) : Prop where
  leaf : ∀ {kind} start stop, kind.isGrammar → P (s.leaf kind start stop)
  build : ∀ {kind} start stop {inside}, kind.isGrammar → (∀ c ∈ inside, P c) →
    P (s.build kind start stop inside)

theorem literalFrom_all (builds : s.Builds P) (skip from_ offset : Nat) (text : Text) :
    ∀ c ∈ s.literalFrom skip from_ offset text, P c := by
  have piece : ∀ start stop, ∀ c ∈ s.literalPiece start stop, P c := by
    intro start stop c member
    obtain rfl := List.mem_singleton.mp member
    exact builds.leaf _ _ (by split <;> rfl)
  have before : ∀ start stop,
      ∀ c ∈ (if start < stop then s.literalPiece start stop else []), P c := by
    intro start stop c member
    split at member
    · exact piece start stop c member
    · cases member
  fun_induction literalFrom s skip from_ offset text with
  | case1 _ from_ offset => exact piece from_ offset
  | case2 => simp
  | case3 _ _ _ _ _ ih => exact ih
  | case4 from_ offset b rest length _ ih =>
    intro c member
    rcases List.mem_append.mp member with member | member
    · exact before from_ offset c member
    rcases List.mem_cons.mp member with rfl | member
    · exact builds.leaf _ _ rfl
    · exact ih c member
  | case5 _ _ _ _ _ ih => exact ih

theorem literal_all (builds : s.Builds P) (span : Shell.Span) :
    ∀ c ∈ s.literal span, P c := by
  rw [literal]
  split
  · intro c member
    obtain rfl := List.mem_singleton.mp member
    exact builds.leaf _ _ (by split <;> rfl)
  · exact literalFrom_all builds _ _ _ _

theorem joinPieces_all (builds : s.Builds P) (span : Shell.Span) {pieces : List Node}
    (all : ∀ c ∈ pieces, P c) : P (s.joinPieces span pieces) := by
  unfold joinPieces
  split
  · exact all _ (List.mem_singleton_self _)
  · exact builds.build _ _ rfl all

theorem withRedirects_all (builds : s.Builds P) {command : Option Node}
    {redirects : List Node} (start stop : Nat) (allCommand : ∀ c ∈ command, P c)
    (all : ∀ c ∈ redirects, P c) :
    ∀ c ∈ s.withRedirects command redirects start stop, P c := by
  intro c member
  unfold withRedirects at member
  split at member
  · exact allCommand c member
  · obtain rfl := Option.some.inj member
    refine builds.build _ _ rfl ?_
    intro c member
    rcases List.mem_append.mp member with member | member
    · exact allCommand c (Option.mem_toList.mp member)
    · exact all c member

open Shell

/-- A statement stands alone and as a segment of a pipe: both recursions meet here. -/
theorem assemble_all (builds : s.Builds P) (bodies : List Body) (whole : Statement)
    {command : Option Node} {redirects : List Node} (here : ∀ c ∈ command, P c)
    (clauses : ∀ c ∈ redirects, P c) : ∀ c ∈ s.assemble bodies whole command redirects, P c := by
  intro c member
  obtain ⟨start, negated, inner, redirections, semicolon, background⟩ := whole
  cases background with
  | true =>
    obtain rfl := Option.some.inj member
    exact builds.leaf _ _ rfl
  | false =>
    simp only [assemble, Bool.false_eq_true, if_false] at member
    generalize found : s.withRedirects command redirects _ _ = outcome at member
    cases outcome with
    | none => cases member
    | some n =>
      have all : P n := withRedirects_all builds _ _ here clauses n found
      cases negated with
      | true =>
        obtain rfl := Option.some.inj member
        exact builds.build _ _ rfl (by simpa using all)
      | false =>
        obtain rfl := Option.some.inj member
        exact all

mutual

theorem part_all (builds : s.Builds P) (bodies : List Body) :
    ∀ (quoted : Bool) (p : Part), ∀ c ∈ s.part bodies quoted p, P c
  | quoted, .literal lexeme => by
    rw [part]
    split
    · simpa using builds.leaf _ _ rfl
    · exact literal_all builds _
  | _, .singleQuoted span dollar _ => by simpa [part] using builds.leaf _ _ (by split <;> rfl)
  | _, .doubleQuoted span parts => by
    simpa [part] using builds.build _ _ rfl (quotedParts_all builds bodies parts)
  | _, .parameter span short name operand => by
    have head : ∀ c ∈ name.toList.map s.parameterName, P c := by
      intro c member
      obtain ⟨lexeme, _, rfl⟩ := List.mem_map.mp member
      exact builds.leaf _ _ (by split <;> rfl)
    cases operand with
    | none => simpa [part] using builds.build _ _ (by split <;> rfl) head
    | some value =>
      have operand := word_all builds bodies value
      simp only [part, List.mem_singleton, forall_eq]
      refine builds.build _ _ (by split <;> rfl) ?_
      rw [List.forall_mem_append]
      refine ⟨head, ?_⟩
      split
      · simp
      · simpa using operand
  | _, .substitution span body => by
    simpa [part] using builds.build _ _ rfl (statements_all builds bodies body)
  | _, .arithmetic span => by simpa [part] using builds.leaf _ _ rfl
  | _, .process span => by simpa [part] using builds.leaf _ _ rfl
  | _, .glob span => by simpa [part] using builds.leaf _ _ rfl

theorem quotedParts_all (builds : s.Builds P) (bodies : List Body) :
    ∀ parts : List Part, ∀ c ∈ s.quotedParts bodies parts, P c
  | [] => by simp [quotedParts]
  | p :: rest => by
    rw [quotedParts, List.forall_mem_append]
    exact ⟨part_all builds bodies true p, quotedParts_all builds bodies rest⟩

theorem plainParts_all (builds : s.Builds P) (bodies : List Body) :
    ∀ parts : List Part, ∀ c ∈ s.plainParts bodies parts, P c
  | [] => by simp [plainParts]
  | p :: rest => by
    rw [plainParts, List.forall_mem_append]
    exact ⟨part_all builds bodies false p, plainParts_all builds bodies rest⟩

theorem word_all (builds : s.Builds P) (bodies : List Body) :
    ∀ w : Word, P (s.word bodies w)
  | .mk parts => by
    rw [word]
    exact joinPieces_all builds _ (plainParts_all builds bodies parts)

theorem words_all (builds : s.Builds P) (bodies : List Body) :
    ∀ list : List Word, ∀ c ∈ s.words bodies list, P c
  | [] => by simp [words]
  | w :: rest => by
    rw [words, List.forall_mem_cons]
    exact ⟨word_all builds bodies w, words_all builds bodies rest⟩

theorem listing_all (builds : s.Builds P) (bodies : List Body) :
    ∀ l : Listing, P (s.listing bodies l)
  | .mk span elements => by
    rw [listing]
    exact builds.build _ _ rfl (words_all builds bodies elements)

theorem assignment_all (builds : s.Builds P) (bodies : List Body) :
    ∀ a : Assignment, P (s.assignment bodies a)
  | .mk span name _ (some elements) value => by
    rw [assignment]
    refine builds.build _ _ rfl ?_
    simpa using ⟨builds.leaf _ _ rfl, listing_all builds bodies elements⟩
  | .mk span name _ none (some value) => by
    rw [assignment]
    refine builds.build _ _ rfl ?_
    simpa using ⟨builds.leaf _ _ rfl, word_all builds bodies value⟩
  | .mk span name _ none none => by
    rw [assignment]
    refine builds.build _ _ rfl ?_
    simpa using builds.leaf _ _ rfl

theorem assignments_all (builds : s.Builds P) (bodies : List Body) :
    ∀ list : List Assignment, ∀ c ∈ s.assignments bodies list, P c
  | [] => by simp [assignments]
  | a :: rest => by
    rw [assignments, List.forall_mem_cons]
    exact ⟨assignment_all builds bodies a, assignments_all builds bodies rest⟩

theorem declared_all (builds : s.Builds P) (bodies : List Body) :
    ∀ d : Declared, P (s.declared bodies d)
  | .name lexeme _ => by rw [declared]; exact builds.leaf _ _ rfl
  | .word value => by rw [declared]; exact word_all builds bodies value
  | .assignment value => by rw [declared]; exact assignment_all builds bodies value

theorem declarations_all (builds : s.Builds P) (bodies : List Body) :
    ∀ list : List Declared, ∀ c ∈ s.declarations bodies list, P c
  | [] => by simp [declarations]
  | d :: rest => by
    rw [declarations, List.forall_mem_cons]
    exact ⟨declared_all builds bodies d, declarations_all builds bodies rest⟩

theorem redirect_all (builds : s.Builds P) (bodies : List Body) :
    ∀ r : Redirect, P (s.redirect bodies r)
  | .mk operator number kind target => by
    rw [redirect]
    refine builds.build _ _ (by cases kind <;> rfl) ?_
    intro c member
    rcases List.mem_append.mp member with member | member
    · obtain ⟨span, _, rfl⟩ := List.mem_map.mp member
      exact builds.leaf _ _ rfl
    · obtain rfl := List.mem_singleton.mp member
      exact word_all builds bodies target

theorem redirects_all (builds : s.Builds P) (bodies : List Body) :
    ∀ list : List Redirect, ∀ c ∈ s.redirects bodies list, P c
  | [] => by simp [redirects]
  | r :: rest => by
    rw [redirects, List.forall_mem_cons]
    exact ⟨redirect_all builds bodies r, redirects_all builds bodies rest⟩

theorem clause_all (builds : s.Builds P) (bodies : List Body) (stop : Nat) :
    ∀ o : Otherwise, P (s.clause bodies stop o)
  | .mk start isElse condition body => by
    rw [clause]
    refine builds.build _ _ (by split <;> rfl) ?_
    rw [List.forall_mem_append]
    exact ⟨statements_all builds bodies condition, statements_all builds bodies body⟩

theorem clauses_all (builds : s.Builds P) (bodies : List Body) :
    ∀ (stops : List Nat) (list : List Otherwise), ∀ c ∈ s.clauses bodies stops list, P c
  | stop :: stops, o :: rest => by
    rw [clauses, List.forall_mem_cons]
    exact ⟨clause_all builds bodies stop o, clauses_all builds bodies stops rest⟩
  | [], _ => by simp [clauses]
  | _ :: _, [] => by simp [clauses]

theorem call_all (builds : s.Builds P) (bodies : List Body) {assigned : List Node}
    (all : ∀ c ∈ assigned, P c) (span : Span) :
    ∀ arguments : List Word, P (s.call bodies assigned span arguments)
  | [] => by
    rw [call.eq_def]
    dsimp only
    split
    · exact all _ (List.mem_singleton_self _)
    · exact builds.build _ _ rfl all
  | name :: arguments => by
    have rest := words_all builds bodies arguments
    have first := word_all builds bodies name
    rw [call]
    split
    · refine builds.build _ _ rfl ?_
      rw [List.forall_mem_append]
      exact ⟨all, fun c member => rest c (List.dropLast_subset _ member)⟩
    · split
      · refine builds.build _ _ rfl ?_
        rw [List.forall_mem_append]
        exact ⟨all, rest⟩
      · refine builds.build _ _ rfl ?_
        rw [List.forall_mem_append, List.forall_mem_cons]
        refine ⟨all, builds.build _ _ rfl ?_, rest⟩
        simpa using first

theorem segments_all (builds : s.Builds P) (bodies : List Body) :
    ∀ x : Statement, ∀ c ∈ s.segments bodies x, P c
  | .mk start negated none redirections semicolon background => by
    have found : ∀ c ∈ (none : Option Node), P c := nofun
    have whole := assemble_all builds bodies
      (.mk start negated none redirections semicolon background) found
      (redirects_all builds bodies redirections)
    rw [segments]
    exact fun c member => whole c (Option.mem_toList.mp member)
  | .mk start negated (some inner) redirections semicolon background => by
    have found : ∀ c ∈ some (s.command bodies inner), P c := by
      simpa using command_all builds bodies inner
    have whole := assemble_all builds bodies
      (.mk start negated (some inner) redirections semicolon background) found
      (redirects_all builds bodies redirections)
    have chained := piped_all builds bodies inner
    rw [segments]
    split
    · exact chained
    · exact fun c member => whole c (Option.mem_toList.mp member)

theorem piped_all (builds : s.Builds P) (bodies : List Body) :
    ∀ c : Command, ∀ n ∈ s.piped bodies c, P n
  | .pipe left right => by
    rw [piped, List.forall_mem_append]
    exact ⟨segments_all builds bodies left, segments_all builds bodies right⟩
  | .call .. | .declare .. | .block .. | .subshell .. | .branch .. | .whileLoop .. | .forEach ..
  | .forCount .. | .list .. | .function .. | .arithmetic _ | .test .. | .cases _ | .unsupported _
  | .keyword .. => by simp [piped]

theorem command_all (builds : s.Builds P) (bodies : List Body) :
    ∀ c : Command, P (s.command bodies c)
  | .call assigned arguments => by
    rw [command]
    exact call_all builds bodies (assignments_all builds bodies assigned) _ arguments
  | .declare keyword declared => by
    rw [command]
    exact builds.build _ _ rfl (declarations_all builds bodies declared)
  | .branch start fi condition body others => by
    rw [command]
    refine builds.build _ _ rfl ?_
    rw [List.forall_mem_append, List.forall_mem_append]
    exact ⟨⟨statements_all builds bodies condition, statements_all builds bodies body⟩,
      clauses_all builds bodies _ others⟩
  | .whileLoop span doStart condition body => by
    have group : P (s.build .doGroup doStart span.stop (s.statements bodies body)) :=
      builds.build _ _ rfl (statements_all builds bodies body)
    rw [command]
    refine builds.build _ _ rfl ?_
    rw [List.forall_mem_append]
    exact ⟨statements_all builds bodies condition, by simpa using group⟩
  | .forEach span doStart name items body => by
    have group : P (s.build .doGroup doStart span.stop (s.statements bodies body)) :=
      builds.build _ _ rfl (statements_all builds bodies body)
    rw [command]
    refine builds.build _ _ rfl ?_
    rw [List.forall_mem_append, List.forall_mem_cons]
    exact ⟨⟨builds.leaf _ _ rfl, words_all builds bodies items⟩, by simpa using group⟩
  | .forCount span doStart body => by
    have group : P (s.build .doGroup doStart span.stop (s.statements bodies body)) :=
      builds.build _ _ rfl (statements_all builds bodies body)
    rw [command]
    exact builds.build _ _ rfl (by simpa using group)
  | .block span body => by
    rw [command]
    exact builds.build _ _ rfl (statements_all builds bodies body)
  | .subshell span body => by
    rw [command]
    exact builds.build _ _ rfl (statements_all builds bodies body)
  | .pipe left right => by
    rw [command]
    refine builds.build _ _ rfl ?_
    rw [List.forall_mem_append]
    exact ⟨segments_all builds bodies left, segments_all builds bodies right⟩
  | .list left right => by
    rw [command]
    refine builds.build _ _ rfl ?_
    rw [List.forall_mem_append]
    exact ⟨fun c member => statement_all builds bodies left c (Option.mem_toList.mp member),
      fun c member => statement_all builds bodies right c (Option.mem_toList.mp member)⟩
  | .function start name body => by
    rw [command]
    refine builds.build _ _ rfl ?_
    rw [List.forall_mem_cons]
    exact ⟨builds.leaf _ _ rfl,
      fun c member => statement_all builds bodies body c (Option.mem_toList.mp member)⟩
  | .arithmetic span => by rw [command]; exact builds.leaf _ _ rfl
  | .test span operands => by
    rw [command]
    exact builds.build _ _ rfl (words_all builds bodies operands)
  | .cases span => by rw [command]; exact builds.leaf _ _ rfl
  | .unsupported span => by rw [command]; exact builds.leaf _ _ rfl
  | .keyword span body => by rw [command]; exact builds.leaf _ _ rfl

theorem statement_all (builds : s.Builds P) (bodies : List Body) :
    ∀ x : Statement, ∀ c ∈ s.statement bodies x, P c
  | .mk _ _ none redirections _ _ => by
    rw [statement]
    exact assemble_all builds bodies _ (by simp) (redirects_all builds bodies redirections)
  | .mk _ _ (some inner) redirections _ _ => by
    rw [statement]
    exact assemble_all builds bodies _ (by simpa using command_all builds bodies inner)
      (redirects_all builds bodies redirections)

theorem statements_all (builds : s.Builds P) (bodies : List Body) :
    ∀ list : List Statement, ∀ c ∈ s.statements bodies list, P c
  | [] => by simp [statements]
  | x :: rest => by
    rw [statements, List.forall_mem_append]
    refine ⟨?_, statements_all builds bodies rest⟩
    intro c member
    exact statement_all builds bodies x c (Option.mem_toList.mp member)

end

end Source

/-- What building keeps holds of the tree of every script that is read. -/
theorem Node.of_parse {source : Text} {root : Node} {P : Node → Prop}
    (accepted : Node.parse source = .ok root)
    (builds : ∀ script, (Source.ofScript source script).Builds P) : P root := by
  rw [Node.parse] at accepted
  split at accepted
  · next script _ =>
    cases accepted
    exact (builds script).build _ _ rfl (Source.statements_all (builds script) _ _)
  · cases accepted
  · cases accepted

end ShellToDeno
