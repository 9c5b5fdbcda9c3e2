import ShellToDeno.Proofs.Echo.Printed

/-!
# Escapes that echo interprets

With `-e` the escapes in the text of `echo` are to be interpreted: of two backslashes one is kept, a
backslash and a letter become one character, and what stands in a substitution stays as it is
(`Template.intended`).

The rewriting works on the whole template, from left to right and without a look at what a backslash
belongs to. A doubled backslash before a letter is taken for an escape also if another backslash
stands before it, and also inside a substitution (`Template.written`). `echo_interprets_escapes`
tells when this is what was to be done.
-/
namespace ShellToDeno.Compile

open CompileState Arguments

/-- What becomes of a doubled backslash and the byte after it. -/
def interpreted (b : UInt8) : Text := (echoEscape? b).getD [Ascii.backslash, Ascii.backslash, b]

/-- The byte that an escape stands for. -/
def escapeByte? (b : UInt8) : Option UInt8 :=
  ([('a', 7), ('b', 8), ('e', 27), ('E', 27), ('f', 12), ('n', 10), ('r', 13), ('t', 9),
    ('v', 11)] : List (Char × UInt8)).findSome? fun entry =>
    if b == entry.1 then some entry.2 else none

namespace Template

/-- What stands in a template. -/
inductive Piece where
  /-- A backslash, which is written twice. -/
  | backslash
  /-- Another byte after a backslash. -/
  | escaped (b : UInt8)
  | plain (b : UInt8)
  | substitution (code : Text)

namespace Piece

def text : Piece → Text
  | backslash => [Ascii.backslash, Ascii.backslash]
  | escaped b => [Ascii.backslash, b]
  | plain b => [b]
  | substitution code => Js.substitution code

def isFormed : Piece → Bool
  | escaped b | plain b => b != Ascii.backslash
  | _ => true

end Piece

/-- What the escapes in a template should become. -/
def intended : List Piece → Text
  | .backslash :: .backslash :: rest => Piece.backslash.text ++ intended rest
  | .backslash :: .plain b :: rest => interpreted b ++ intended rest
  | piece :: rest => piece.text ++ intended rest
  | [] => []

/-- What they become. -/
def written : List Piece → Text
  | .backslash :: .plain b :: rest => interpreted b ++ written rest
  | .backslash :: .escaped b :: rest => Ascii.backslash :: interpreted b ++ written rest
  | .substitution code :: rest => Js.substitution (echoEscapes code) ++ written rest
  | piece :: rest => piece.text ++ written rest
  | [] => []

/-- No backslash stands before another one or before something else that is written with a letter,
and there is nothing to interpret in the substitutions. -/
def IsRegular : List Piece → Prop
  | .backslash :: .backslash :: _ => False
  | .backslash :: .escaped b :: rest => echoEscape? b = none ∧ IsRegular rest
  | .substitution code :: rest => echoEscapes code = code ∧ IsRegular rest
  | _ :: rest => IsRegular rest
  | [] => True

end Template

/-! The rewriting -/

/-- What follows the first backslash of an escape: another one and a letter that stands for
something. -/
def Announces (t : Text) : Prop := ∃ b rest, t = Ascii.backslash :: b :: rest ∧
    (echoEscape? b).isSome

variable {b : UInt8} {t text rest : Text}

/-- The text for a letter begins with a single backslash. -/
theorem echoEscape?_eq_some (found : echoEscape? b = some text) :
    b ≠ Ascii.backslash ∧ ∃ c more, text = Ascii.backslash :: c :: more ∧ c ≠ Ascii.backslash := by
  have all : ∀ b : UInt8, (echoEscape? b).all fun text => b != Ascii.backslash &&
      (text.head? == some Ascii.backslash && text.tail.head?.any (· != Ascii.backslash)) := by
    decide +kernel
  have here := all b
  rw [found] at here
  simp only [Option.all_some, Bool.and_eq_true, bne_iff_ne, beq_iff_eq] at here
  obtain ⟨other, first, second⟩ := here
  refine ⟨other, ?_⟩
  cases text with
  | nil => cases first
  | cons a text =>
    cases text with
    | nil => cases second
    | cons c more => exact ⟨c, more, by rw [Option.some.inj first], by simpa using second⟩

/-- Where no escape begins a byte is kept. -/
theorem echoEscapes_cons (other : ¬(b = Ascii.backslash ∧ Announces t)) :
    echoEscapes (b :: t) = b :: echoEscapes t := by
  rw [echoEscapes.eq_def]
  split
  · next c rest same =>
    obtain ⟨rfl, rfl⟩ := List.cons.inj same
    split
    · next text found => exact absurd ⟨rfl, c, rest, rfl, by rw [found]; rfl⟩ other
    · rfl
  · next same =>
    obtain ⟨rfl, rfl⟩ := List.cons.inj same
    rfl
  · next same => cases same

theorem echoEscapes_cons_of_ne (other : b ≠ Ascii.backslash) :
    echoEscapes (b :: t) = b :: echoEscapes t :=
  echoEscapes_cons fun both => other both.1

theorem not_announces_cons (other : b ≠ Ascii.backslash) : ¬Announces (b :: t) := by
  rintro ⟨_, _, same, _⟩
  exact other (List.cons.inj same).1

theorem echoEscapes_pair (b : UInt8) (t : Text) :
    echoEscapes (Ascii.backslash :: Ascii.backslash :: b :: t) = match echoEscape? b with
      | some text => text ++ echoEscapes t
      | none => Ascii.backslash :: echoEscapes (Ascii.backslash :: b :: t) :=
  echoEscapes.eq_1 b t

/-- A doubled backslash before another byte. -/
theorem echoEscapes_interpreted (other : b ≠ Ascii.backslash) :
    echoEscapes (Ascii.backslash :: Ascii.backslash :: b :: t) =
    interpreted b ++ echoEscapes t := by
  rw [echoEscapes_pair, interpreted]
  cases echoEscape? b with
  | some text => rfl
  | none =>
    dsimp only
    rw [echoEscapes_cons fun both => not_announces_cons other both.2, echoEscapes_cons_of_ne other]
    rfl

/-- No letter is a backslash. -/
theorem not_announces_backslash : ¬Announces (Ascii.backslash :: Ascii.backslash :: t) := by
  rintro ⟨b, rest, same, letter⟩
  cases same
  cases letter

/-- Before two backslashes, two of them are kept. -/
theorem echoEscapes_backslashes :
    echoEscapes (Ascii.backslash :: Ascii.backslash :: Ascii.backslash :: Ascii.backslash :: t) =
      Ascii.backslash :: Ascii.backslash :: echoEscapes
      (Ascii.backslash :: Ascii.backslash :: t) := by
  rw [echoEscapes_cons fun both => not_announces_backslash both.2,
    echoEscapes_cons fun both => not_announces_backslash both.2]

/-- What follows a byte that is part of no escape is rewritten on its own. -/
theorem echoEscapes_append (other : b ≠ Ascii.backslash) (plain : echoEscape? b = none) :
    echoEscapes (t ++ b :: rest) = echoEscapes t ++ b :: echoEscapes rest := by
  fun_induction echoEscapes t with
  | case1 c t text found ih =>
    refine (echoEscapes_pair c (t ++ b :: rest)).trans ?_
    rw [found, ih, List.append_assoc]
  | case2 c t found ih =>
    refine (echoEscapes_pair c (t ++ b :: rest)).trans ?_
    rw [found]
    exact congrArg (Ascii.backslash :: ·) ih
  | case3 c t shape ih =>
    rw [List.cons_append, echoEscapes_cons ?_, ih, List.cons_append]
    rintro ⟨rfl, d, more, same, letter⟩
    cases t with
    | nil => exact other (List.cons.inj same).1
    | cons e t =>
      obtain ⟨rfl, behind⟩ := List.cons.inj same
      cases t with
      | nil =>
        rw [← (List.cons.inj behind).1, plain] at letter
        cases letter
      | cons f t => exact shape f t rfl rfl
  | case4 => exact echoEscapes_cons_of_ne other

theorem substitution_append (code t : Text) : Js.substitution code ++ t =
    Ascii.dollar :: Ascii.openBrace :: (code ++ Ascii.closeBrace :: t) := by
  have opened : ("$\x7b" : Text) = [Ascii.dollar, Ascii.openBrace] := rfl
  have closed : ("\x7d" : Text) = [Ascii.closeBrace] := rfl
  simp [Js.substitution, opened, closed]

theorem echoEscapes_substitution (code : Text) :
    echoEscapes (Js.substitution code ++ t) = Js.substitution (echoEscapes code) ++
    echoEscapes t := by
  rw [substitution_append, echoEscapes_cons_of_ne (by decide), echoEscapes_cons_of_ne (by decide),
    echoEscapes_append (by decide) (by decide), substitution_append]

namespace Template
variable {pieces : List Piece}

/-- The rewriting, piece by piece. -/
theorem echoEscapes_text (formed : ∀ piece ∈ pieces, piece.isFormed) :
    echoEscapes (pieces.flatMap Piece.text) = written pieces := by
  fun_induction written pieces with
  | case1 b rest ih =>
    simp only [List.forall_mem_cons, Piece.isFormed, bne_iff_ne] at formed
    rw [← ih formed.2.2]
    exact echoEscapes_interpreted formed.2.1
  | case2 b rest ih =>
    simp only [List.forall_mem_cons, Piece.isFormed, bne_iff_ne] at formed
    rw [← ih formed.2.2, List.cons_append, ← echoEscapes_interpreted formed.2.1]
    exact echoEscapes_cons fun both => not_announces_backslash both.2
  | case3 code rest ih =>
    rw [← ih (List.forall_mem_cons.1 formed).2]
    exact echoEscapes_substitution code
  | case4 piece rest plain escaped code ih =>
    obtain ⟨here, others⟩ := List.forall_mem_cons.1 formed
    rw [← ih others, List.flatMap_cons]
    cases piece with
    | substitution => exact absurd rfl (code _)
    | plain b => exact echoEscapes_cons_of_ne (by simpa [Piece.isFormed] using here)
    | escaped b =>
      have other : b ≠ Ascii.backslash := by simpa [Piece.isFormed] using here
      exact (echoEscapes_cons fun both => not_announces_cons other both.2).trans
        (congrArg (Ascii.backslash :: ·) (echoEscapes_cons_of_ne other))
    | backslash =>
      cases rest with
      | nil => rfl
      | cons next rest =>
        cases next with
        | plain b => exact absurd rfl (plain b rest rfl)
        | escaped b => exact absurd rfl (escaped b rest rfl)
        | backslash => exact echoEscapes_backslashes
        | substitution code =>
          rw [List.flatMap_cons, Piece.text, Piece.text, substitution_append]
          exact echoEscapes_interpreted (by decide)
  | case5 => rfl

/-! Where it differs -/

/-- How many backslashes a text begins with. -/
def lead (t : Text) : Nat := (t.takeWhile (· == Ascii.backslash)).length

theorem lead_cons (t : Text) : lead (Ascii.backslash :: t) = lead t + 1 := by simp [lead]

theorem lead_of_ne (other : b ≠ Ascii.backslash) : lead (b :: t) = 0 := by simp [lead, other]

theorem lead_backslash (t : Text) : lead (Piece.backslash.text ++ t) = lead t + 2 := by
  simp [Piece.text, lead_cons]

theorem lead_interpreted (other : b ≠ Ascii.backslash) (t : Text) :
    lead (interpreted b ++ t) = 1 ∨ lead (interpreted b ++ t) = 2 := by
  rw [interpreted]
  cases found : echoEscape? b with
  | none =>
    right
    simp [lead_cons, lead_of_ne other]
  | some text =>
    obtain ⟨_, c, more, rfl, single⟩ := echoEscape?_eq_some found
    left
    simp [lead_cons, lead_of_ne single]

/-- After one more backslash there are more backslashes than there should be without it. -/
theorem lead_intended_lt (formed : ∀ piece ∈ pieces, piece.isFormed) :
    lead (intended pieces) < lead (written (.backslash :: pieces)) := by
  fun_induction intended pieces with
  | case1 rest ih =>
    have fewer := ih (List.forall_mem_cons.1 (List.forall_mem_cons.1 formed).2).2
    change _ < lead (Piece.backslash.text ++ (Piece.backslash.text ++ written (.backslash :: rest)))
    simp only [lead_backslash]
    omega
  | case2 b rest ih =>
    simp only [List.forall_mem_cons, Piece.isFormed, bne_iff_ne] at formed
    change _ < lead (Piece.backslash.text ++ (interpreted b ++ written rest))
    rw [lead_backslash]
    have few := lead_interpreted formed.2.1 (intended rest)
    have more := lead_interpreted formed.2.1 (written rest)
    omega
  | case3 piece rest double letter ih =>
    obtain ⟨here, others⟩ := List.forall_mem_cons.1 formed
    cases piece with
    | backslash =>
      have fewer := ih others
      change _ < lead (Piece.backslash.text ++ written (.backslash :: rest))
      simp only [lead_backslash]
      omega
    | escaped b =>
      have other : b ≠ Ascii.backslash := by simpa [Piece.isFormed] using here
      change lead (Ascii.backslash :: b :: intended rest) <
        lead (Ascii.backslash :: (interpreted b ++ written rest))
      rw [lead_cons, lead_cons, lead_of_ne other]
      have more := lead_interpreted other (written rest)
      omega
    | plain b =>
      have other : b ≠ Ascii.backslash := by simpa [Piece.isFormed] using here
      change lead (b :: intended rest) < lead (interpreted b ++ written rest)
      rw [lead_of_ne other]
      have more := lead_interpreted other (written rest)
      omega
    | substitution code =>
      change lead (Js.substitution code ++ intended rest) < lead (Piece.backslash.text ++ _)
      rw [substitution_append, lead_of_ne (by decide), lead_backslash]
      omega
  | case4 => decide

/-- A text that begins as its rewriting does has nothing to interpret. -/
theorem echoEscapes_eq_self {front back : Text} (same : echoEscapes t ++ front = t ++ back) :
    echoEscapes t = t := by
  fun_induction echoEscapes t with
  | case1 b rest text found ih =>
    obtain ⟨_, c, more, rfl, single⟩ := echoEscape?_eq_some found
    simp only [List.cons_append, List.cons.injEq] at same
    exact absurd same.2.1 single
  | case2 b rest found ih => exact congrArg (Ascii.backslash :: ·) (ih (List.cons.inj same).2)
  | case3 b rest shape ih => exact congrArg (b :: ·) (ih (List.cons.inj same).2)
  | case4 => rfl

/-- The rewriting does what it should for regular templates, and only for these. -/
theorem written_eq_intended_iff (formed : ∀ piece ∈ pieces, piece.isFormed) :
    written pieces = intended pieces ↔ IsRegular pieces := by
  fun_induction intended pieces with
  | case1 rest ih =>
    have fewer := lead_intended_lt (List.forall_mem_cons.1 (List.forall_mem_cons.1 formed).2).2
    change Piece.backslash.text ++ written (.backslash :: rest) =
        Piece.backslash.text ++ intended rest ↔ False
    rw [List.append_right_inj, iff_false]
    exact fun same => Nat.lt_irrefl _ (same ▸ fewer)
  | case2 b rest ih =>
    have others := (List.forall_mem_cons.1 (List.forall_mem_cons.1 formed).2).2
    exact List.append_right_inj _ |>.trans (ih others)
  | case3 piece rest double letter ih =>
    have rest_iff := ih (List.forall_mem_cons.1 formed).2
    cases piece with
    | escaped b => exact List.append_right_inj _ |>.trans rest_iff
    | plain b => exact List.append_right_inj _ |>.trans rest_iff
    | substitution code =>
      change Js.substitution (echoEscapes code) ++ written rest =
          Js.substitution code ++ intended rest ↔
        echoEscapes code = code ∧ IsRegular rest
      rw [← rest_iff]
      constructor
      · intro same
        have opened := same
        rw [substitution_append, substitution_append] at opened
        have kept := echoEscapes_eq_self (List.cons.inj (List.cons.inj opened).2).2
        rw [kept] at same
        exact ⟨kept, List.append_cancel_left same⟩
      · rintro ⟨kept, same⟩
        rw [kept, same]
    | backslash =>
      cases rest with
      | nil => exact iff_of_true rfl trivial
      | cons next rest =>
        cases next with
        | backslash => exact absurd rfl (double rest rfl)
        | plain b => exact absurd rfl (letter b rest rfl)
        | substitution code => exact List.append_right_inj _ |>.trans rest_iff
        | escaped b =>
          have others : written rest = intended rest ↔ IsRegular rest :=
            (List.append_right_inj [Ascii.backslash, b]).symm.trans rest_iff
          change Ascii.backslash :: interpreted b ++ written rest =
            Ascii.backslash :: Ascii.backslash :: Ascii.backslash :: b :: intended rest ↔
              echoEscape? b = none ∧ IsRegular rest
          rw [← others, interpreted]
          cases found : echoEscape? b with
          | none => simp
          | some text =>
            obtain ⟨_, c, more, rfl, single⟩ := echoEscape?_eq_some found
            simp [single]
  | case4 => exact iff_of_true rfl trivial

end Template

/-! Calls -/

/-- The outcome of a call that prints a template, when its arguments have been read. -/
def printingOutcome (u : CompileState) (call : Call) (newline : Bool) (innards : Text) :
    Except Fault FragmentId × CompileState :=
  (.ok u.fragments.size, u.push (.ofFields (printingFields call newline innards)))

theorem echoPieces_congr {c : Compiler} {call other : Call} (context : call.context = other.context)
    (groups : List (List Node)) (pieces : List Text) :
    echo.echoPieces c call groups pieces = echo.echoPieces c other groups pieces := by
  induction groups generalizing pieces with
  | nil => rfl
  | cons group groups ih => simp only [echo.echoPieces, context, ih]

/-- A call of `echo` with the flag `-e` prints the template of the same call without it, after the
rewriting. The rewriting goes piece by piece, but it does what it should only if no backslash stands
before another one or before a control character that is written as an escape, and if there is
nothing to interpret in the substitutions. -/
theorem echo_interprets_escapes (c : Compiler) (s : CompileState) {plain escaping : Call}
    {newline : Bool}
    {groups : List (List Node)} (context : escaping.context = plain.context)
    (without : echoFlags ⟨true, false⟩ plain.groups = (⟨newline, false⟩, groups))
    (interprets : echoFlags ⟨true, false⟩ escaping.groups = (⟨newline, true⟩, groups)) :
    (∀ b, (echoEscape? b).map (fun text => (Js.templateValue text).toOption) =
      (escapeByte? b).map fun byte => some [byte]) ∧
    ((∃ innards u, run s (echo c plain) = printingOutcome u plain newline innards ∧
        run s (echo c escaping) = printingOutcome u escaping newline (echoEscapes innards) ∧
        ∀ pieces : List Template.Piece, (∀ piece ∈ pieces, piece.isFormed) →
          pieces.flatMap Template.Piece.text = innards →
          echoEscapes innards = Template.written pieces ∧
          (echoEscapes innards = Template.intended pieces ↔ Template.IsRegular pieces)) ∨
      ∀ call ∈ [plain, escaping], ∀ id t, run s (echo c call) = (.ok id, t) → t.FallsBack id) := by
  refine ⟨by decide +kernel, ?_⟩
  rw [List.forall_mem_cons, List.forall_mem_singleton, echo_of_flags without,
    echo_of_flags interprets, echoPieces_congr context]
  simp only [run_bind]
  generalize run s (echo.echoPieces c plain groups []) = read
  obtain ⟨outcome, u⟩ := read
  cases outcome with
  | error fault =>
    right
    simp
  | ok found =>
    cases found with
    | none =>
      right
      exact ⟨fun id t ran => of_run_giveUp ran, fun id t ran => of_run_giveUp ran⟩
    | some texts =>
      refine .inl ⟨_, u, rfl, rfl, fun pieces formed same => ?_⟩
      rw [← same, Template.echoEscapes_text formed]
      exact ⟨rfl, Template.written_eq_intended_iff formed⟩

/-- A call of `echo` with nodes that have blanks between them. -/
def echoCall (arguments : List Node) : Call :=
  ⟨echoing arguments, "echo", .leaf .word "echo",
    arguments.flatMap fun n => [.leaf .whitespace " ", n], [], .program⟩

/-- A string in single quotes with two backslashes and a letter, and an expansion with a backslash
and a letter in its default. -/
def doubledEscapes : List Node :=
  [.leaf .rawString "'\\\\n'",
    ⟨.expansion, "$\x7bx:-'\\n'\x7d", [⟨.variableName, "x", [], [], 2, 3⟩,
    .leaf (.token ":-") ":-", ⟨.rawString, "'\\n'", [], [], 5, 9⟩], [], 0, 10⟩]

/-- The pieces of their template. -/
def doubledPieces : List Template.Piece :=
  [.backslash, .backslash, .plain 'n', .plain ' ', .substitution "(env.x || \"\\\\n\")"]

/-- The template of the fragment that a call became. -/
def innards? (result : Except Fault FragmentId × CompileState) : Option Text :=
  match result with
  | (.ok id, t) => match t.fragments[id]?.bind (·.recipe? (some .templateInnards)) with
    | some (.text innards) => some innards
    | _ => none
  | _ => none

theorem innards?_printingOutcome (u : CompileState) (call : Call) (newline : Bool)
    (innards : Text) :
    innards? (printingOutcome u call newline innards) = some innards := by
  have present :
      (u.push (.ofFields (printingFields call newline innards))).fragments[u.fragments.size]? =
      some (.ofFields (printingFields call newline innards)) := by
    simp [push]
  simp only [innards?, printingOutcome, present, Option.bind_some, Fragment.recipe?_ofFields]
  rfl

/-- Neither of the two comes out as it should: one backslash is kept too many, and the default is
changed. -/
theorem echo_interprets_escapes_doubled :
    (∃ u, run .empty (echo (.ofFuel .standard 5) (echoCall doubledEscapes)) =
        printingOutcome u (echoCall doubledEscapes) true "\\\\\\\\n $\x7b(env.x || \"\\\\n\")\x7d" ∧
      run .empty (echo (.ofFuel .standard 5) (echoCall (.leaf .word "-e" :: doubledEscapes))) =
        printingOutcome u (echoCall (.leaf .word "-e" :: doubledEscapes)) true
        "\\\\\\n $\x7b(env.x || \"\\n\")\x7d") ∧
    doubledPieces.flatMap Template.Piece.text = "\\\\\\\\n $\x7b(env.x || \"\\\\n\")\x7d" ∧
    Template.intended doubledPieces = "\\\\n $\x7b(env.x || \"\\\\n\")\x7d" := by
  refine ⟨?_, by decide +kernel, by decide +kernel⟩
  have shown : innards? (run .empty (echo (.ofFuel .standard 5) (echoCall doubledEscapes))) =
      some "\\\\\\\\n $\x7b(env.x || \"\\\\n\")\x7d" := by decide +kernel
  obtain ⟨_, ⟨innards, u, first, second, _⟩ | marked⟩ :=
    @echo_interprets_escapes (.ofFuel .standard 5) .empty (echoCall doubledEscapes)
      (echoCall (.leaf .word "-e" :: doubledEscapes)) true _ rfl rfl rfl
  · rw [first, innards?_printingOutcome] at shown
    obtain rfl := Option.some.inj shown
    exact ⟨u, first, second⟩
  · have marker := marked _ List.mem_cons_self
    generalize run .empty (echo _ (echoCall doubledEscapes)) = result at shown marker
    obtain ⟨outcome, t⟩ := result
    cases outcome with
    | error => cases shown
    | ok id =>
      obtain ⟨text, present⟩ := marker id t rfl
      simp only [innards?, present, Option.bind_some] at shown
      cases shown

end ShellToDeno.Compile
