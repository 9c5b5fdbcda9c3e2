import ShellToDeno.Proofs.Compile.Compiled
import ShellToDeno.Proofs.Fragment.Lacking
import ShellToDeno.Proofs.Quoting.CommandLine
import ShellToDeno.Proofs.Tests.Strings

/-!
# What echo prints

The arguments of `echo` become one template: each is escaped on its own, they are joined with single
blanks, and in a statement with few newlines these are written as escapes. Neither step changes what
the template stands for (`Js.templateValue_join`, `Js.templateValue_spelled_append`), so arguments
that are spelled out are printed as they are. The exception is a string that goes on in the next
line after a backslash. The newline is then a part of its own, of which no text can be shown
(`Fragment.Lacks`), and the whole command becomes a marker (`Compile.echo_prints`).
-/
namespace ShellToDeno

theorem Text.join_cons_cons (separator first second : Text) (others : List Text) :
    join separator (first :: second :: others) =
    first ++ (separator ++ join separator (second :: others)) := by
  simp [join, List.intercalate]

namespace Js

/-- A text with its newlines written as escapes. -/
def inlined (t : Text) : Text := Text.replaceAll "\n" "\\n" t

theorem inlined_append (first second : Text) :
    inlined (first ++ second) = inlined first ++ inlined second :=
  Text.replaceAll_append Ascii.newline "\\n" first second

theorem inlined_of_not_mem {t : Text} (plain : Ascii.newline ∉ t) : inlined t = t := by
  induction t with
  | nil => rfl
  | cons b t ih =>
    have other : b ≠ Ascii.newline := fun same => plain (by simp [same])
    refine (Text.replaceAll_cons Ascii.newline "\\n" b t).trans ?_
    rw [if_neg other]
    exact congrArg (b :: ·) (ih fun member => plain (List.mem_cons_of_mem b member))

theorem head?_inlined_append (t rest : Text) :
    (inlined t ++ rest).head? = some Ascii.openBrace ↔
    (t ++ rest).head? = some Ascii.openBrace := by
  cases t with
  | nil => rfl
  | cons b t =>
    rw [inlined, show Text.replaceAll "\n" "\\n" (b :: t) = _ from
      Text.replaceAll_cons Ascii.newline "\\n" b t]
    by_cases newline : b = Ascii.newline
    · subst newline
      simp +decide
    · simp [newline]

theorem spellsNewlines_inlined : SpellsNewlines inlined :=
  ⟨inlined_append, inlined_of_not_mem, .escape fun _ => rfl, head?_inlined_append⟩

theorem inlined_join (pieces : List Text) :
    inlined (Text.join " " pieces) = Text.join " " (pieces.map inlined) := by
  induction pieces with
  | nil => rfl
  | cons piece pieces ih =>
    cases pieces with
    | nil => simp [Text.join]
    | cons next pieces =>
      have blank : inlined " " = " " := rfl
      simp only [List.map_cons] at ih ⊢
      rw [Text.join_cons_cons, inlined_append, inlined_append, ih, blank, Text.join_cons_cons]

/-- Texts that were written one by one are read back with blanks between them: a dollar sign at the
end of one is not completed by what follows. -/
theorem templateValue_join {write : Text → Text}
    (reads : ∀ {s rest : Text}, ¬Meet s rest →
      templateValue (write s ++ rest) = (templateValue rest).map (s ++ ·)) (values : List Text) :
    templateValue (Text.join " " (values.map write)) = .ok (Text.join " " values) := by
  induction values with
  | nil => rfl
  | cons value values ih =>
    cases values with
    | nil =>
      have alone : templateValue (write value ++ []) = _ := reads (by simp [Meet])
      simpa [Text.join, templateValue, templateFrom, Except.map] using alone
    | cons next values =>
      have blank : Shows " " " " := .plain rfl
      have apart (rest : Text) : ¬Meet value (" " ++ rest) := by
        rintro ⟨_, brace⟩
        exact absurd (Option.some.inj brace) (by decide)
      rw [List.map_cons, List.map_cons, Text.join_cons_cons, reads (apart _), blank,
        ← List.map_cons, ih, Text.join_cons_cons]
      rfl

end Js

/-! Arguments -/

namespace Node

/-- A string that goes on in the next line after a backslash. The newline is then a part of its
own. -/
def IsContinued (n : Node) : Prop :=
  n.kind = .string ∧ ∃ part ∈ Compile.quotedParts n, part.kind = .whitespace

/-- Arguments without expansions, each with its value. A string has a content of its own for every
dollar sign in it that begins no expansion. -/
inductive Printed : Node → Text → Prop where
  | literal {n : Node} {value : Text} (means : n.Means value) (kind : n.kind ≠ .stringContent) :
    n.Printed value
  | string {n : Node} (kind : n.kind = .string)
    (contents : ∀ part ∈ Compile.quotedParts n, part.kind = .stringContent)
    (apart : ¬Js.MeetsLater ((Compile.quotedParts n).map fun part =>
      Shell.unescapeDoubleQuoted part.text)) :
    n.Printed ((Compile.quotedParts n).map fun part => Shell.unescapeDoubleQuoted part.text).flatten
  | continued {n : Node} (continued : n.IsContinued)
    (parts : ∀ part ∈ Compile.quotedParts n, part.kind ∈ [.stringContent, .text, .whitespace]) :
    n.Printed (Shell.unescapeDoubleQuoted (Arguments.textOf (Compile.quotedParts n)))

theorem Printed.kind {n : Node} {value : Text} (printed : n.Printed value) :
    ¬Arguments.IsLayout n ∧ n.kind ≠ .concatenation := by
  cases printed with
  | literal means => simp [Arguments.IsLayout, means.kind]
  | string kind => simp [Arguments.IsLayout, Node.isBackslash, kind]
  | continued continued => simp [Arguments.IsLayout, Node.isBackslash, continued.1]

/-- An argument on one line is written as its value. -/
theorem Printed.writes {n : Node} {value : Text} (printed : n.Printed value)
    (whole : ¬n.IsContinued)
    (registry : Registry) (fuel : Nat) (context : Context) :
    Writes (.ofFuel registry (fuel + 2)) .templateInnards
      ((Compiler.ofFuel registry (fuel + 2)).compile n context) (Js.templateInnards value) := by
  cases printed with
  | literal means =>
    obtain ⟨fields, literal, makes, _⟩ := means.makes registry (fuel + 1) context
    exact .of_makes literal.texts makes literal.innards
  | continued continued => exact absurd continued whole
  | string kind contents apart =>
    apply Writes.node
    rw [Compile.branch, kind]
    dsimp only
    rw [Compile.string]
    split
    · next none =>
      rw [none]
      exact .of_makes (by simp [Fields.IsText]) (fun s => rfl) rfl
    · next only alone =>
      have content : only.kind = .stringContent := contents only (by simp [alone])
      obtain ⟨fields, literal, makes, _⟩ :=
        (Means.stringContent content).makes registry fuel context
      have value : ([only].map fun part => Shell.unescapeDoubleQuoted part.text).flatten =
          Shell.unescapeDoubleQuoted only.text := by simp
      rw [alone, value]
      exact .of_makes literal.texts makes literal.innards
    · next none alone =>
      intro s
      obtain ⟨entries, t, made, texts, literals⟩ :=
        Writes.run_contents registry fuel context contents s
      have several : 2 ≤ entries.length := by
        rw [← List.length_map (f := Prod.snd), texts, List.length_map]
        rcases parts : Compile.quotedParts n with _ | ⟨first, _ | ⟨second, rest⟩⟩
        · exact absurd parts none
        · exact absurd parts (alone first)
        · simp
      obtain ⟨fields, u, combined, keeps, joined⟩ :=
        Arguments.run_combine registry fuel literals several
      obtain ⟨v, read⟩ := Arguments.run_read_combined registry fuel (keeps.literals literals) joined
      rw [texts, Js.flatten_templateInnards apart] at read
      exact ⟨u, fields, v, (Compile.run_bind_ok made _).trans combined, read⟩

/-- A part of a string is made of texts; the newline of a continued line shows nothing. -/
theorem part_makes {part : Node} (kind : part.kind ∈ [Kind.stringContent, .text, .whitespace])
    (registry : Registry) (fuel : Nat) (context : Context) :
    ∃ fields : Fields, fields.IsText ∧
      Makes ((Compiler.ofFuel registry (fuel + 1)).compile part context) fields ∧
      (part.kind = .whitespace → (Fragment.ofFields fields).Lacks) := by
  simp only [List.mem_cons, List.not_mem_nil, or_false] at kind
  rcases kind with kind | kind | kind
  · obtain ⟨fields, literal, makes, _⟩ := (Means.stringContent kind).makes registry fuel context
    exact ⟨fields, literal.texts, makes, by simp [kind]⟩
  · refine ⟨[(.statement, .text []),
      (.templateInnards, .text [])], by simp [Fields.IsText], .node ?_, by simp [kind]⟩
    rw [Compile.branch, kind]
    exact fun s => rfl
  · refine ⟨[(.statement, .text part.text),
      (.value, .text part.text)], by simp [Fields.IsText], .node ?_, fun _ => ⟨?_, ?_, ?_⟩⟩
    · rw [Compile.branch, kind]
      exact fun s => rfl
    · intro form shown
      rw [Fragment.recipe?_ofFields]
      cases form
      case statement | value => cases shown
      all_goals rfl
    · rw [Fragment.recipe?_ofFields]
      rfl
    · intro form value _ found
      simp [Fragment.slot?, Fragment.ofFields] at found

end Node

namespace Arguments
open CompileState Compile
variable {s t : CompileState} (registry : Registry) (fuel : Nat)

theorem run_parts (context : Context) {parts : List Node}
    (kinds : ∀ part ∈ parts, part.kind ∈ [Kind.stringContent, .text, .whitespace])
    (s : CompileState) :
    ∃ ids t, run s (parts.mapM fun part => (Compiler.ofFuel registry (fuel + 1)).compile part
      context) =
        (.ok ids, t) ∧ ids.length = parts.length ∧
      (∀ id ∈ ids, ∃ fields, fields.IsText ∧ t.Holds id fields) ∧
      ((∃ part ∈ parts, part.kind = .whitespace) → ∃ blank ∈ ids, t.Lacks blank) ∧
      ∀ j, j < s.fragments.size → t.fragments[j]? = s.fragments[j]? := by
  induction parts generalizing s with
  | nil => exact ⟨[], s, rfl, rfl, by simp, by simp, fun _ _ => rfl⟩
  | cons part parts ih =>
    rw [List.forall_mem_cons] at kinds
    obtain ⟨fields, texts, makes, lacks⟩ := Node.part_makes kinds.1 registry fuel context
    obtain ⟨ids, t, ran, length, held, blank, frame⟩ := ih kinds.2 (s.push (.ofFields fields))
    have size : (s.push (.ofFields fields)).fragments.size = s.fragments.size + 1 := by simp [push]
    rw [size] at frame
    have first : t.fragments[s.fragments.size]? = some (.ofFields fields) :=
      (frame _ (Nat.lt_succ_self _)).trans (by simp [push])
    refine ⟨s.fragments.size :: ids, t, ?_, by simp [length], ?_, ?_, ?_⟩
    · rw [List.mapM_cons, run_bind_ok (makes s), run_bind_ok ran]
      rfl
    · exact List.forall_mem_cons.2 ⟨⟨fields, texts, holds_ofFields first⟩, held⟩
    · rintro ⟨white, member, kind⟩
      rcases List.mem_cons.1 member with rfl | later
      · exact ⟨_, List.mem_cons_self, _, first, lacks kind⟩
      · obtain ⟨id, inside, missing⟩ := blank ⟨white, later, kind⟩
        exact ⟨id, List.mem_cons_of_mem _ inside, missing⟩
    · intro j below
      rw [frame j (by omega)]
      simp [push, Array.getElem?_push, Nat.ne_of_lt below]

/-- A fragment that is one argument and has no template. -/
def Unprinted (t : CompileState) (id : FragmentId) : Prop :=
  (∃ f, t.fragments[id]? = some f ∧ f.values = none) ∧ ∀ registry fuel value u,
    run t ((Compiler.ofFuel registry fuel).read id .templateInnards) = (.ok value, u) → value = none

theorem unprinted_of_lacks {id : FragmentId} {f : Fragment} (present : t.fragments[id]? = some f)
    (single : f.values = none) (lacks : f.Lacks) : Unprinted t id := by
  refine ⟨⟨f, present, single⟩, fun registry fuel value u ran => ?_⟩
  have here : t.Lacks id := ⟨f, present, lacks⟩
  have missed := here.run_read registry fuel (rfl : Form.templateInnards.isShown)
  rw [ran] at missed
  exact missed.2 value rfl

theorem unprinted_of_fallsBack {id : FragmentId} (marker : t.FallsBack id) : Unprinted t id := by
  obtain ⟨text, present⟩ := marker
  refine unprinted_of_lacks present rfl ⟨?_, rfl, ?_⟩
  · intro form shown
    cases form
    case value => cases shown
    all_goals rfl
  · intro form value _ found
    simp [Fragment.slot?, Fragment.ofFields] at found

theorem unprinted_of_continued {n : Node} (continued : n.IsContinued)
    (kinds : ∀ part ∈ quotedParts n, part.kind ∈ [Kind.stringContent, .text, .whitespace])
    {context : Context} {id : FragmentId}
    (ran : run s ((Compiler.ofFuel registry (fuel + 2)).compile n context) = (.ok id, t)) :
    Unprinted t id := by
  obtain ⟨kind, newline⟩ := continued
  rcases of_run_node ran with ran | marker
  · rw [branch, kind] at ran
    dsimp only at ran
    rw [Compile.string] at ran
    split at ran
    · next none =>
      rw [none] at newline
      simp at newline
    · next only alone =>
      rw [alone] at kinds newline
      obtain ⟨fields, _, makes, lacks⟩ :=
        Node.part_makes (kinds only (by simp)) registry fuel context
      rw [makes s] at ran
      cases ran
      exact unprinted_of_lacks (by simp [push]) rfl (lacks (by simpa using newline))
    · next alone =>
      obtain ⟨ids, u, made, length, texts, blank, _⟩ := run_parts registry fuel context kinds s
      obtain ⟨white, member, lacks⟩ := blank newline
      rw [run_bind_ok made] at ran
      have several : ids.length ≠ 1 := by
        rw [length]
        intro single
        obtain ⟨only, same⟩ := List.length_eq_one_iff.1 single
        exact alone only same
      obtain ⟨v, fields, here, rfl, rfl, pieced⟩ :=
        of_run_combine registry (fuel + 1) ⟨texts, lacks⟩ member several ran
      refine ⟨⟨.ofFields fields, by simp [push], rfl⟩, fun registry fuel value u read => ?_⟩
      exact of_run_read_combined registry fuel here member pieced read
  · exact unprinted_of_fallsBack marker

/-- Nodes that are set apart are arguments of their own. -/
theorem groups_apart {nodes arguments : List Node} (parted : Parted nodes arguments)
    (proper : ∀ n ∈ arguments, ¬IsLayout n) : groups nodes = arguments.map ([·]) := by
  have marks : marked false true nodes = arguments.map (true, ·) := by
    cases parted with
    | none layout =>
      obtain ⟨_, _, same, _⟩ := marked_layout layout [] false true
      simpa [marked] using same
    | @next before rest later n layout gap parted =>
      obtain ⟨escaped, fresh, same, parts⟩ := marked_layout layout (n :: rest) false true
      rw [List.forall_mem_cons] at proper
      rw [same, marked_node proper.1, parts (.inl rfl), marked_parted parted proper.2]
      rfl
  rw [groups, marks]
  cases arguments with
  | nil => rfl
  | cons n arguments => exact gather_fresh (true, n) arguments

end Arguments

namespace Compile
open CompileState Arguments
variable {s t : CompileState} {call : Call} {entries : List (Node × Text)} (registry : Registry)
    (fuel : Nat)

/-! Flags -/

theorem foldl_echoFlag {word : Text} (plain : ('e' : Char).toUInt8 ∉ word) (newline : Bool) :
    word.foldl echoFlag ⟨newline, false⟩ = ⟨newline && word.all (· != 'n'), false⟩ := by
  induction word generalizing newline with
  | nil => simp
  | cons b word ih =>
    obtain ⟨other, plain⟩ := not_or.1 (mt List.mem_cons.2 plain)
    have step : echoFlag ⟨newline, false⟩ b = ⟨newline && b != 'n', false⟩ := by
      by_cases silent : b = ('n' : Char).toUInt8
      · simp [echoFlag, silent]
      · simp [echoFlag, silent, Ne.symm other]
    rw [List.foldl_cons, step, ih plain, List.all_cons, Bool.and_assoc]

/-- Flags without an `e`. -/
structure IsPlainFlag (n : Node) : Prop where
  kind : n.kind = .word
  flag : isEchoFlag n.text = true
  plain : ('e' : Char).toUInt8 ∉ n.text

/-- Whether the line is ended. -/
def endsLine (flags : List Node) : Bool := flags.all fun flag => flag.text.all (· != 'n')

theorem echoFlags_plain {flags arguments : List Node} (plain : ∀ flag ∈ flags, IsPlainFlag flag)
    (after : ∀ n ∈ arguments.head?, isEchoFlag n.text = false) (newline : Bool) :
    echoFlags ⟨newline, false⟩ ((flags ++ arguments).map ([·])) =
      (⟨newline && endsLine flags, false⟩, arguments.map ([·])) := by
  induction flags generalizing newline with
  | nil =>
    cases arguments with
    | nil => simp [echoFlags, endsLine]
    | cons n arguments =>
      have other : isEchoFlag (textOf [n]) = false := by
        simpa [textOf] using after n (by simp)
      simp [echoFlags, other, endsLine]
  | cons flag flags ih =>
    rw [List.forall_mem_cons] at plain
    have text : textOf [flag] = flag.text := by simp [textOf]
    rw [List.cons_append, List.map_cons, echoFlags, text, if_pos plain.1.flag,
      foldl_echoFlag plain.1.plain, ih plain.2, endsLine, endsLine, List.all_cons, Bool.and_assoc]

/-! Pieces -/

/-- A continued string cannot be read as one argument of a template. -/
theorem of_run_readEach {n : Node} {value : Text} (printed : n.Printed value)
    (continued : n.IsContinued)
    {context : Context} {ids : List FragmentId} {u : CompileState} {found : Option (List Text)}
    (converted : run s (convert (.ofFuel registry (fuel + 2)) context [n]) = (.ok ids, t))
    (read : run t (readEach (.ofFuel registry (fuel + 2)) .templateInnards ids) = (.ok found, u)) :
    found = none := by
  have kinds : ∀ part ∈ quotedParts n, part.kind ∈ [Kind.stringContent, .text, .whitespace] := by
    cases printed with
    | continued _ parts => exact parts
    | literal means => exact absurd continued.1 (by cases means <;> simp_all)
    | string _ contents => exact fun part member => by simp [contents part member]
  obtain ⟨id, v, compiled, _⟩ :=
    Compiler.exists_compile registry (Nat.succ_pos (fuel + 1)) s n context
  obtain ⟨⟨f, present, single⟩, missing⟩ :=
    unprinted_of_continued registry fuel continued kinds compiled
  have one := run_convert_of_compile printed.kind.2 compiled present single
  rw [one] at converted
  cases converted
  rw [readEach] at read
  obtain ⟨value, w, first, read⟩ := of_run_bind read
  obtain rfl := missing _ _ _ _ first
  cases read
  rfl

theorem of_run_echoPieces (printed : ∀ entry ∈ entries, entry.1.Printed entry.2)
    (continued : ∃ entry ∈ entries, entry.1.IsContinued) {pieces : List Text}
    {found : Option (List Text)}
    (ran : run s (echo.echoPieces (.ofFuel registry (fuel + 2)) call
      ((entries.map Prod.fst).map ([·])) pieces) = (.ok found, t)) : found = none := by
  induction entries generalizing s pieces with
  | nil => simp at continued
  | cons entry entries ih =>
    rw [List.map_cons, List.map_cons, echo.echoPieces] at ran
    rw [List.forall_mem_cons] at printed
    obtain ⟨ids, u, converted, ran⟩ := of_run_bind ran
    obtain ⟨more, v, read, ran⟩ := of_run_bind ran
    cases more with
    | none =>
      cases ran
      rfl
    | some more =>
      obtain ⟨broken, member, continued⟩ := continued
      rcases List.mem_cons.1 member with rfl | later
      · cases of_run_readEach registry fuel printed.1 continued converted read
      · exact ih printed.2 ⟨broken, later, continued⟩ ran

theorem run_echoPieces (call : Call) (printed : ∀ entry ∈ entries, entry.1.Printed entry.2)
    (whole : ∀ entry ∈ entries, ¬entry.1.IsContinued) (pieces : List Text) (s : CompileState) :
    ∃ t, run s (echo.echoPieces (.ofFuel registry (fuel + 2)) call
      ((entries.map Prod.fst).map ([·])) pieces) =
        (.ok (some (pieces ++ (entries.map Prod.snd).map Js.templateInnards)), t) := by
  induction entries generalizing s pieces with
  | nil => exact ⟨s, by simp [echo.echoPieces]⟩
  | cons entry entries ih =>
    rw [List.forall_mem_cons] at printed whole
    obtain ⟨t, fields, u, compiled, read⟩ := printed.1.writes whole.1 registry fuel call.context s
    have converted := run_convert_of_compile (f := .ofFields fields) printed.1.kind.2 compiled
      (by simp [push]) rfl
    obtain ⟨v, later⟩ := ih printed.2 whole.2 (pieces ++ [Js.templateInnards entry.2]) u
    have one : run (t.push (.ofFields fields))
        (readEach (.ofFuel registry (fuel + 2)) .templateInnards [t.fragments.size]) =
        (.ok (some [Js.templateInnards entry.2]), u) := by
      rw [readEach, run_bind_ok read]
      rfl
    refine ⟨v, ?_⟩
    rw [List.map_cons, List.map_cons, echo.echoPieces, run_bind_ok converted, run_bind_ok one]
    refine later.trans ?_
    simp

/-! Statements -/

/-- The call that prints a template, with the end of a line or without. -/
def printing : Bool → Text → Text
  | true, innards => "console.log(" ++ Js.template innards ++ ")"
  | false, innards =>
    "await Deno.stdout.write(new TextEncoder().encode(" ++ Js.template innards ++ "))"

theorem printing_eq (newline : Bool) (innards : Text) :
    (if newline then "console.log(`" ++ innards ++ "`)"
    else "await Deno.stdout.write(new TextEncoder().encode(`" ++ innards ++ "`))") =
      printing newline innards := by
  have loud : ("console.log(`" : Text) = "console.log(" ++ "`" ∧ ("`)" : Text) = "`" ++ ")" :=
    ⟨rfl, rfl⟩
  have silent : ("await Deno.stdout.write(new TextEncoder().encode(`" : Text) =
      "await Deno.stdout.write(new TextEncoder().encode(" ++ "`" ∧ ("`))" : Text) = "`" ++ "))" :=
      ⟨rfl, rfl⟩
  cases newline
  · simp [printing, Js.template, silent]
  · simp [printing, Js.template, loud]

theorem inlineNewlines_printing (newline : Bool) (innards : Text) :
    inlineNewlines (printing newline innards) = printing newline innards ∨
      inlineNewlines (printing newline innards) = printing newline (Js.inlined innards) := by
  rw [inlineNewlines]
  split
  · right
    change Js.inlined (printing newline innards) = _
    cases newline
    · simp only [printing, Js.template, Js.inlined_append]
      rfl
    · simp only [printing, Js.template, Js.inlined_append]
      rfl
  · exact .inl rfl

/-- The forms of a call that prints a template. -/
def printingFields (call : Call) (newline : Bool) (innards : Text) : Fields :=
  let printed := inlineNewlines (printing newline innards)
  [(.statement, .text printed), (.condition, .text ("(" ++ printed ++ " || 1)")),
    (.templateInnards, .text innards)] ++ call.externalFields

theorem run_read_printing (s : CompileState) (call : Call) (newline : Bool) (innards : Text) :
    ∃ t, run (s.push (.ofFields (printingFields call newline innards)))
      ((Compiler.ofFuel registry (fuel + 1)).read s.fragments.size .statement) =
        (.ok (some (inlineNewlines (printing newline innards))), t) := by
  refine ⟨_, run_read_push rfl rfl ?_⟩
  rw [size_setSlot]
  simp [push]

theorem echo_of_flags {c : Compiler} {newline escapes : Bool} {groups : List (List Node)}
    (flags : echoFlags ⟨true, false⟩ call.groups = (⟨newline, escapes⟩, groups)) : echo c call = (do
      match ← echo.echoPieces c call groups [] with
      | none => call.giveUp "arguments could not be converted"
      | some pieces =>
        let joined := Text.join " " pieces
        new (printingFields call newline (if escapes then echoEscapes joined else joined))) := by
  rw [echo, flags]
  refine bind_congr fun found => ?_
  cases found with
  | none => rfl
  | some pieces =>
    dsimp only
    rw [printing_eq]
    rfl

/-- Arguments that are spelled out are printed with single blanks between them, unless a string
among them goes on in the next line: then the command becomes a marker. -/
theorem echo_prints (known : registry.find? "echo" = some .echo) (s : CompileState)
    {context : Context}
    {n : Node} (kind : n.kind = .command) (found : Call.ofNode? context n = some call)
    (name : call.name = "echo") (flags : List Node) (entries : List (Node × Text))
    (plain : ∀ flag ∈ flags, IsPlainFlag flag)
    (parted : Parted call.arguments (flags ++ entries.map Prod.fst))
    (after : ∀ n ∈ (entries.map Prod.fst).head?, isEchoFlag n.text = false)
    (printed : ∀ entry ∈ entries, entry.1.Printed entry.2) :
    ∃ id t, run s ((Compiler.ofFuel registry (fuel + 3)).compile n context) = (.ok id, t) ∧
      ((∃ entry ∈ entries, entry.1.IsContinued) → t.FallsBack id) ∧
      ((∀ entry ∈ entries, ¬entry.1.IsContinued) → ∃ innards u,
        run t ((Compiler.ofFuel registry (fuel + 3)).read id .statement) =
          (.ok (some (printing (endsLine flags) innards)), u) ∧
        Js.IsString (Js.template innards) (Text.join " " (entries.map Prod.snd))) := by
  obtain ⟨id, t, compiled, _⟩ :=
    Compiler.exists_compile registry (Nat.succ_pos (fuel + 2)) s n context
  have groups : call.groups = (flags ++ entries.map Prod.fst).map ([·]) := by
    refine groups_apart parted fun m member => ?_
    rcases List.mem_append.1 member with isFlag | isArgument
    · simp [IsLayout, Node.isBackslash, (plain m isFlag).kind]
    · obtain ⟨entry, listed, rfl⟩ := List.mem_map.1 isArgument
      exact (printed entry listed).kind.1
  have branch : Compile.branch (.ofFuel registry (fuel + 2)) n context = (do
      log .debug "translating builtin" [("builtin", "echo")]
      echo (.ofFuel registry (fuel + 2)) call) := by
    rw [Compile.branch, kind]
    dsimp only
    rw [command, found]
    dsimp only
    rw [name, if_neg (by decide)]
    rw [show (Compiler.ofFuel registry (fuel + 2)).registry.find? "echo" = some .echo from known]
    rfl
  have flagged : echoFlags ⟨true, false⟩ call.groups =
      (⟨endsLine flags, false⟩, (entries.map Prod.fst).map ([·])) := by
    rw [groups, echoFlags_plain plain after, Bool.true_and]
  refine ⟨id, t, compiled, fun continued => ?_, fun whole => ?_⟩
  · rcases of_run_node compiled with ran | marker
    · rw [branch] at ran
      obtain ⟨_, u, _, ran⟩ := of_run_bind ran
      rw [echo_of_flags flagged] at ran
      obtain ⟨pieces, v, read, ran⟩ := of_run_bind ran
      obtain rfl := of_run_echoPieces registry fuel printed continued read
      exact of_run_giveUp ran
    · exact marker
  · have logged : run s (log .debug "translating builtin" [("builtin", "echo")]) = _ := rfl
    obtain ⟨u, pieces⟩ := run_echoPieces registry fuel call printed whole [] _
    have ran := run_bind_ok logged fun _ => echo (.ofFuel registry (fuel + 2)) call
    rw [← branch, echo_of_flags flagged, run_bind_ok pieces] at ran
    let joined := Text.join " " ((entries.map Prod.snd).map Js.templateInnards)
    have made : run s ((Compiler.ofFuel registry (fuel + 3)).compile n context) =
        (.ok u.fragments.size, u.push
          (.ofFields (printingFields call (endsLine flags) joined))) := by
      change run s (node (.ofFuel registry (fuel + 2)) n context) = _
      rw [node, run_tryCatch, ran]
      rfl
    cases compiled.symm.trans made
    obtain ⟨v, read⟩ := run_read_printing registry (fuel + 2) u call (endsLine flags) joined
    rcases inlineNewlines_printing (endsLine flags) joined with same | same
    · exact ⟨joined, v, same ▸ read,
        Js.isString_template (Js.templateValue_join Js.templateValue_innards_append _)⟩
    · refine ⟨Js.inlined joined, v, same ▸ read, Js.isString_template ?_⟩
      rw [Js.inlined_join, List.map_map]
      exact Js.templateValue_join (Js.templateValue_spelled_append Js.spellsNewlines_inlined) _

/-- A command that echoes nodes with blanks between them. -/
def echoing (arguments : List Node) : Node :=
  ⟨.command, [], ⟨.commandName, "echo", [.leaf .word "echo"], [], 0, 0⟩ ::
    arguments.flatMap fun n => [.leaf .whitespace " ", n], [], 0, 0⟩

theorem parted_echoing (arguments : List Node) :
    Parted (arguments.flatMap fun n => [.leaf .whitespace " ", n]) arguments := by
  induction arguments with
  | nil => exact .none (List.forall_mem_nil _)
  | cons n arguments ih =>
    have blank : IsGap (.leaf .whitespace " ") := ⟨rfl, by decide⟩
    exact .next (List.forall_mem_singleton.2 (.inr blank.1))
      ⟨_, List.mem_singleton_self _, blank⟩ ih

/-- Text in double quotes, by its parts. -/
def doubleQuoted (parts : List Node) : Node :=
  ⟨.string, [], .leaf (.token "\"") "\"" :: (parts ++ [.leaf (.token "\"") "\""]), [], 0, 0⟩

/-- The string `"5$ \`"`, which is cut at its dollar sign. -/
def price : Node := doubleQuoted
  [.leaf .stringContent "5", .leaf .stringContent "$", .leaf .stringContent " \\`"]

/-- Backticks, newlines and lone dollar signs are printed, and the line is not ended after `-n`. A
string that goes on in the next line is not printed, although it has a value. -/
theorem echo_prints_quoted :
    (∃ id t innards u, run .empty ((Compiler.ofFuel .standard 3).compile (echoing [.leaf .word "-n",
        .leaf .rawString "'`\n'", price]) .program) = (.ok id, t) ∧
      run t ((Compiler.ofFuel .standard 3).read id .statement) =
        (.ok (some (printing false innards)), u) ∧
      Js.IsString (Js.template innards) "`\n 5$ `") ∧
    ∃ n id t, n = doubleQuoted [.leaf .stringContent "a\\", .leaf .whitespace "\n",
        .leaf .stringContent "b"] ∧
      n.Printed "ab" ∧
      run .empty ((Compiler.ofFuel .standard 3).compile (echoing [n]) .program) = (.ok id, t) ∧
      t.FallsBack id := by
  constructor
  · have flag : IsPlainFlag (.leaf .word "-n") := ⟨rfl, by decide, by decide⟩
    have raw : Node.Printed (.leaf .rawString "'`\n'") "`\n" :=
      .literal (.rawString rfl rfl) (by decide)
    have content : price.Printed "5$ `" :=
      Node.Printed.string (n := price) rfl (by decide) (by decide)
    obtain ⟨id, t, compiled, _, prints⟩ :=
      echo_prints .standard 0 rfl .empty (n := echoing _) rfl rfl rfl
      [.leaf .word "-n"] [(.leaf .rawString "'`\n'", "`\n"), (price, "5$ `")]
      (List.forall_mem_singleton.2 flag) (parted_echoing _) (by rintro _ ⟨⟩; decide)
      (List.forall_mem_cons.2 ⟨raw, List.forall_mem_singleton.2 content⟩)
    obtain ⟨innards, u, read, shown⟩ := prints (by simp +decide [Node.IsContinued, price])
    exact ⟨id, t, innards, u, compiled, read, shown⟩
  · have continued : Node.IsContinued
        (doubleQuoted [.leaf .stringContent "a\\", .leaf .whitespace "\n",
        .leaf .stringContent "b"]) := ⟨rfl, _, List.mem_cons_of_mem _ List.mem_cons_self, rfl⟩
    have printed := Node.Printed.continued continued (by decide)
    obtain ⟨id, t, compiled, marker, _⟩ :=
      echo_prints .standard 0 rfl .empty (n := echoing _) rfl rfl rfl
      [] [(doubleQuoted [.leaf .stringContent "a\\", .leaf .whitespace "\n",
        .leaf .stringContent "b"], "ab")]
      (List.forall_mem_nil _) (parted_echoing _) (by rintro _ ⟨⟩; decide)
      (List.forall_mem_singleton.2 printed)
    exact ⟨_, id, t, rfl, printed, compiled, marker ⟨_, List.mem_singleton_self _, continued⟩⟩

end Compile

end ShellToDeno
