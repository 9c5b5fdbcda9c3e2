import ShellToDeno.Proofs.Quoting.Joined
import ShellToDeno.Proofs.Quoting.CommandLine

/-!
# Double-quoted text as an argument

Text from between double quotes, and each value of a brace expression, may stand bare in a command
string if it is made of plain characters and of apostrophes in double quotes. The command string
reads these quotes, so a text that holds them loses them. Any other text is read back as it was
(`Arguments.argument_doubleQuoted`).
-/
namespace ShellToDeno

/-- Text from between double quotes, with its value: a stretch of a string without expansions, or a
text that is given as it is. -/
inductive LiteralPart.DoubleQuoted : LiteralPart → Text → Prop where
  | content {n : Node} (kind : n.kind = .stringContent) :
    (LiteralPart.node n).DoubleQuoted (Shell.unescapeDoubleQuoted n.text)
  | text (t : Text) : (LiteralPart.text t).DoubleQuoted t

namespace Dax

/-- What a command string reads where a text stands bare. -/
def bareValue (s : Text) : Text := Text.replaceAll "\"'\"" "'" s

theorem bareValue_cons {b : UInt8} (other : b ≠ Ascii.doubleQuote) (rest : Text) :
    bareValue (b :: rest) = b :: bareValue rest := by
  have begins : Text.begins "\"'\"" (b :: rest) = false := by
    have piece : ("\"'\"" : Text) = [Ascii.doubleQuote, Ascii.singleQuote, Ascii.doubleQuote] := rfl
    simp [piece, Text.begins, List.isPrefixOf, Ne.symm other]
  simp [bareValue, Text.replaceAll, Text.replaceFrom, begins]

theorem isBareByte_ne_doubleQuote {b : UInt8} (bare : isBareByte b) : b ≠ Ascii.doubleQuote := by
  rintro rfl
  exact absurd bare (by decide)

/-- Nothing is left of the quotes. -/
theorem doubleQuote_not_mem_bareValue {s : Text} (bare : bareFrom s) :
    Ascii.doubleQuote ∉ bareValue s := by
  fun_induction bareFrom s with
  | case1 => exact List.not_mem_nil
  | case2 rest ih =>
    change Ascii.doubleQuote ∉ Ascii.singleQuote :: bareValue rest
    rw [List.mem_cons]
    rintro (quote | inside)
    · exact absurd quote (by decide)
    · exact ih bare inside
  | case3 b rest triple ih =>
    rw [Bool.and_eq_true] at bare
    have other := isBareByte_ne_doubleQuote bare.1
    rw [bareValue_cons other, List.mem_cons]
    rintro (quote | inside)
    · exact other quote.symm
    · exact ih bare.2 inside

theorem bareValue_eq_self_iff {s : Text} (bare : bareFrom s) :
    bareValue s = s ↔ Ascii.doubleQuote ∉ s := by
  constructor
  · intro same
    rw [← same]
    exact doubleQuote_not_mem_bareValue bare
  · intro absent
    clear bare
    induction s with
    | nil => rfl
    | cons b s ih =>
      rw [List.mem_cons, not_or] at absent
      rw [bareValue_cons (Ne.symm absent.1), ih absent.2]

theorem shows_bareText {s : Text} (bare : bareFrom s) : Js.Shows s s := by
  apply Js.Shows.plainText
  fun_induction bareFrom s with
  | case1 => simp
  | case2 rest ih =>
    simp only [List.forall_mem_cons]
    exact ⟨rfl, rfl, rfl, ih bare⟩
  | case3 b rest triple ih =>
    rw [Bool.and_eq_true] at bare
    rw [List.forall_mem_cons]
    exact ⟨(Shell.ordinary_classes b (Shell.bare_classes b bare.1).1).1, ih bare.2⟩

end Dax

namespace Shell

theorem wordsFrom_bareText {s : Text} (bare : Dax.bareFrom s) (word rest : Text) :
    wordsFrom none (some word) (s ++ rest) = wordsFrom none (some (word ++ Dax.bareValue s))
    rest := by
  fun_induction Dax.bareFrom s generalizing word with
  | case1 => simp [Dax.bareValue, Text.replaceAll, Text.replaceFrom]
  | case2 after ih =>
    refine (wordsFrom_open rfl _ _).trans ?_
    refine (wordsFrom_quoted (by decide) _ _).trans ?_
    refine (wordsFrom_close _ _ _).trans ?_
    refine (ih bare _).trans ?_
    change _ = wordsFrom none (some (word ++ Ascii.singleQuote :: Dax.bareValue after)) rest
    simp
  | case3 b after triple ih =>
    rw [Bool.and_eq_true] at bare
    obtain ⟨ordinary, special, _⟩ := bare_classes b bare.1
    have spells : Spells [b] [b] := .ordinary ordinary (by simp [special])
    refine (spells (some word) (after ++ rest)).trans ?_
    refine (ih bare.2 _).trans ?_
    rw [Dax.bareValue_cons (Dax.isBareByte_ne_doubleQuote bare.1)]
    simp

/-- A bare text spells what is left of it without the quotes. -/
theorem Spells.bareText {s : Text} (bare : Dax.isBare s) : Spells s (Dax.bareValue s) := by
  simp only [Dax.isBare, Bool.and_eq_true, Bool.not_eq_true', List.isEmpty_eq_false_iff] at bare
  obtain ⟨nonempty, bare⟩ := bare
  intro word rest
  obtain ⟨b, s, rfl⟩ := List.exists_cons_of_ne_nil nonempty
  have blank : isBlank b = false := by
    by_cases quote : b = Ascii.doubleQuote
    · subst quote
      rfl
    · rw [Dax.bareFrom.eq_3 b s fun _ same => absurd same quote, Bool.and_eq_true] at bare
      obtain ⟨ordinary, special, _⟩ := bare_classes b bare.1
      exact ((ordinary_classes b ordinary).2 (by simp [special])).2.1
  exact (wordsFrom_start blank word _).trans (wordsFrom_bareText bare _ rest)

end Shell

/-- A bare text quotes what is left of it without the quotes. -/
theorem Dax.Quotes.bareText {s : Text} (bare : Dax.isBare s) : Quotes s (Dax.bareValue s) :=
  ⟨s, shows_bareText (Bool.and_eq_true_iff.1 bare).2, .bareText bare⟩

/-- The command string of a single argument has one word. -/
theorem Shell.Spells.words? {piece value : Text} (spells : Spells piece value) :
    words? piece = some [value] := by
  have alone := spells none []
  rw [List.append_nil] at alone
  rw [Shell.words?, alone]
  rfl

/-- No form is made from the quoted one. -/
theorem Form.derivation_asks_unquoted (id : FragmentId) (given : Form → Bool) (form : Form) :
    (form.derivation id given).Asks fun j g => j = id ∧ g ≠ some .singleQuoted := by
  refine derivation_asks_of given form fun g member => ⟨rfl, ?_⟩
  rintro ⟨⟩
  cases form
  case stringValue =>
    rw [asked] at member
    split at member <;> simp at member
  all_goals simp [asked] at member

/-- A form that was read is kept. -/
theorem Fragment.slot?_of_run_read {c : Compiler} {s t : CompileState} {id : FragmentId}
    {form : Form}
    {value : Option Text} (ran : Compile.run s (read c id (some form)) = (.ok value, t)) :
    t.slot? id form = some (.known value) := by
  cases present : s.fragments[id]? with
  | none =>
    rw [run_read_missing present] at ran
    cases ran
  | some f =>
    cases slot : s.slot? id form with
    | some kept =>
      cases kept with
      | known answer =>
        rw [run_read_known slot] at ran
        cases ran
        exact slot
      | cooking =>
        rw [run_read_cooking slot] at ran
        cases ran
    | none =>
      rw [run_read_new present slot, run_make present] at ran
      split at ran
      · split at ran
        · next kept =>
          cases ran
          exact CompileState.slot?_setSlot_self kept
        · cases ran
      · cases ran

namespace CompileState
variable {s t : CompileState} {id : FragmentId} {fields : Fields} {value : Text}

/-- Queries that do not ask for the quoted form leave it alone if their reads do. -/
theorem Holds.query_singleQuoted (texts : fields.IsText) {registry : Registry} {fuel : Nat}
    (reads : ∀ {s : CompileState} {form : Option Form}, s.Holds id fields →
      form ≠ some .singleQuoted →
      (Compile.run s ((Compiler.ofFuel registry fuel).readAny id form)).2.slot? id .singleQuoted =
        s.slot? id .singleQuoted)
    {q : Query} (asks : q.Asks fun j g => j = id ∧ g ≠ some .singleQuoted)
      (holds : s.Holds id fields) :
    (Compile.run s (q.run (.ofFuel registry fuel))).2.slot? id .singleQuoted =
      s.slot? id .singleQuoted := by
  induction asks generalizing s with
  | give value => rfl
  | @ask j form next here rest ih =>
    obtain ⟨rfl, unlike⟩ := here
    have first := reads holds unlike
    have kept := (Holds.readAny texts registry fuel form holds).1
    rw [Query.run, Compile.run_bind]
    generalize Compile.run s ((Compiler.ofFuel registry fuel).readAny j form) = step at first kept ⊢
    obtain ⟨outcome, t⟩ := step
    cases outcome with
    | error fault => exact first
    | ok value => exact (ih value kept).trans first

/-- Reading another form of a literal leaves its quoted form alone. -/
theorem Holds.readAny_singleQuoted (texts : fields.IsText) (registry : Registry) (fuel : Nat)
    {form : Option Form} (holds : s.Holds id fields) (unlike : form ≠ some .singleQuoted) :
    (Compile.run s ((Compiler.ofFuel registry fuel).readAny id form)).2.slot? id .singleQuoted =
      s.slot? id .singleQuoted := by
  induction fuel generalizing s form with
  | zero => rfl
  | succ fuel ih =>
    cases form with
    | none => rfl
    | some form =>
      have other : form ≠ .singleQuoted := fun same => unlike (congrArg some same)
      by_cases direct : fields.Direct form
      · obtain ⟨t, run, _, _, others⟩ := holds.run_read texts direct registry fuel
        rw [Compiler.read] at run
        rw [run]
        exact others _ (Ne.symm other)
      · change (Compile.run s (Fragment.read _ id (some form))).2.slot? id .singleQuoted = _
        cases slot : s.slot? id form with
        | some slot' =>
          cases slot' with
          | known value => rw [Fragment.run_read_known slot]
          | cooking => rw [Fragment.run_read_cooking slot]
        | none =>
          have held := holds
          obtain ⟨f, present, _⟩ := held
          obtain ⟨given, derived, _⟩ := holds.query?_derived texts direct
          have marked : (s.setSlot id form .cooking).Holds id fields :=
            holds.setSlot fun supplied => absurd supplied direct
          have asked := marked.query_singleQuoted texts ih (form.derivation_asks_unquoted id given)
          have unmarked (t : CompileState) (slot : Slot) :
              (t.setSlot id form slot).slot? id .singleQuoted = t.slot? id .singleQuoted :=
            slot?_setSlot_of_ne fun same => other same.2.symm
          rw [unmarked] at asked
          rw [Fragment.run_read_new present slot, Fragment.run_make_query derived]
          generalize Compile.run (s.setSlot id form .cooking) _ = made at asked ⊢
          obtain ⟨outcome, t⟩ := made
          cases outcome with
          | error fault => exact asked
          | ok value =>
            cases kept : t.fragments[id]? with
            | none => simpa [kept] using asked
            | some g => simpa [kept, unmarked] using asked

/-- A literal whose quoted form, if it has been made, is its value in single quotes. -/
structure Quotes (s : CompileState) (id : FragmentId) (fields : Fields) (value : Text) : Prop where
  literal : fields.Literal value
  holds : s.Holds id fields
  kept : ∀ slot, s.slot? id .singleQuoted = some slot →
    slot = .known (some ("'" ++ Dax.singleQuoteInnards (Js.templateInnards value) ++ "'"))

theorem Quotes.run_singleQuoted (quotes : s.Quotes id fields value) (registry : Registry)
    (fuel : Nat) :
    ∃ t, Compile.run s ((Compiler.ofFuel registry (fuel + 2)).read id .singleQuoted) =
      (.ok (some ("'" ++ Dax.singleQuoteInnards (Js.templateInnards value) ++ "'")), t) := by
  cases slot : s.slot? id .singleQuoted with
  | none =>
    obtain ⟨t, run, _⟩ :=
      Arguments.run_singleQuoted registry fuel quotes.literal quotes.holds slot
    exact ⟨t, run⟩
  | some kept =>
    rw [quotes.kept kept slot] at slot
    exact ⟨s, Fragment.run_read_known slot⟩

/-- No read spoils what is quoted. -/
theorem Quotes.readAny (quotes : s.Quotes id fields value) (registry : Registry) (fuel : Nat)
    (form : Option Form) :
    (Compile.run s ((Compiler.ofFuel registry (fuel + 2)).readAny id form)).2.Quotes id fields
      value := by
  refine ⟨quotes.literal, (Holds.readAny quotes.literal.texts registry _ form quotes.holds).1, ?_⟩
  intro slot found
  by_cases same : form = some .singleQuoted
  · subst same
    obtain ⟨t, run⟩ := quotes.run_singleQuoted registry fuel
    have kept := Fragment.slot?_of_run_read run
    change Compile.run s ((Compiler.ofFuel registry (fuel + 2)).readAny id (some .singleQuoted)) =
        _ at run
    rw [run] at found
    exact Option.some.inj (found.symm.trans kept)
  · rw [Holds.readAny_singleQuoted quotes.literal.texts registry _ quotes.holds same] at found
    exact quotes.kept slot found

theorem Quotes.run_argument (quotes : s.Quotes id fields value) (registry : Registry) (fuel : Nat) :
    ∃ t, Compile.run s (Arguments.argument (.ofFuel registry (fuel + 2)) id) =
      (.ok (some ((fields.text? .argument).getD
        ("'" ++ Dax.singleQuoteInnards (Js.templateInnards value) ++ "'"))), t) := by
  obtain ⟨t, bare, _⟩ := quotes.holds.run_read quotes.literal.texts
    (.inl rfl : fields.Direct .argument) registry (fuel + 1)
  rw [Arguments.argument, Compile.run_bind, Compiler.readFirst, Compile.run_bind_ok bare]
  cases found : fields.text? .argument with
  | some text => exact ⟨t, rfl⟩
  | none =>
    have later := quotes.readAny registry fuel (some .argument)
    change (Compile.run s ((Compiler.ofFuel registry (fuel + 2)).read id .argument)).2.Quotes _ _
        _ at later
    rw [bare] at later
    obtain ⟨u, run⟩ := later.run_singleQuoted registry fuel
    refine ⟨u, ?_⟩
    simp only [Compiler.readFirst, Compile.run_bind_ok run, Compile.run_pure]
    rfl

theorem Quotes.afterAll (quotes : s.Quotes id fields value) (registry : Registry) (fuel : Nat)
    (history : List (Option Form)) :
    (s.afterAll (.ofFuel registry (fuel + 2)) (history.map (.get id))).Quotes id fields value := by
  induction history generalizing s with
  | nil => exact quotes
  | cons form history ih => exact ih (quotes.readAny registry fuel form)

end CompileState

namespace LiteralPart.DoubleQuoted
open CompileState

theorem makes {part : LiteralPart} {value : Text} (quoted : part.DoubleQuoted value)
    (registry : Registry)
    (fuel : Nat) (context : Context) :
    ∃ fields : Fields, fields.Literal value ∧
      Makes (part.make (.ofFuel registry (fuel + 1)) context) fields ∧
      fields.text? .argument = if Dax.isBare value then some value else none := by
  cases quoted with
  | content kind =>
    obtain ⟨fields, literal, makes, argument, _⟩ :=
      Arguments.literal_makes (Shell.unescapeDoubleQuoted _)
    refine ⟨fields, literal, .node ?_, argument⟩
    rwa [Compile.branch, kind]
  | text =>
    obtain ⟨fields, literal, makes, argument, _⟩ := Arguments.literal_makes value
    exact ⟨fields, literal, makes, argument⟩

end LiteralPart.DoubleQuoted

namespace Arguments
open CompileState

/-- Text from between double quotes as an argument of a command string, after any reads: the string
holds one word. This is the value of the text, except that a bare text loses the double quotes in
it. -/
theorem argument_doubleQuoted (registry : Registry) {fuel : Nat} (enough : 2 ≤ fuel)
    (context : Context)
    (s : CompileState) {part : LiteralPart} {value : Text} (quoted : part.DoubleQuoted value) :
    ∃ id t, Compile.run s (part.make (.ofFuel registry fuel) context) = (.ok id, t) ∧
      ∀ history : List (Option Form), ∃ piece shown innards u v,
        Compile.run (t.afterAll (.ofFuel registry fuel) (history.map (.get id)))
          (argument (.ofFuel registry fuel) id) = (.ok (some piece), u) ∧
        Compile.run (t.afterAll (.ofFuel registry fuel) (history.map (.get id)))
          ((Compiler.ofFuel registry fuel).read id .templateInnards) = (.ok (some innards), v) ∧
        Js.templateValue innards = .ok value ∧ Js.templateValue piece = .ok shown ∧
        Shell.words? shown = some [if Dax.isBare value then Dax.bareValue value else value] ∧
        (Shell.words? shown = some [value] ↔ ¬(Dax.isBare value ∧ Ascii.doubleQuote ∈ value)) := by
  obtain ⟨fuel, rfl⟩ : ∃ less, fuel = less + 2 := ⟨fuel - 2, by omega⟩
  obtain ⟨fields, literal, makes, given⟩ := quoted.makes registry (fuel + 1) context
  refine ⟨s.fragments.size, s.push (.ofFields fields), makes s, fun history => ?_⟩
  have fresh : (s.push (.ofFields fields)).Quotes s.fragments.size fields value := by
    refine ⟨literal, holds_push fields, fun slot found => ?_⟩
    rw [slot?_push rfl] at found
    simp [slot?] at found
  have quotes := fresh.afterAll registry fuel history
  obtain ⟨v, innards, _⟩ := quotes.holds.run_read literal.texts
    (.inr (by simp [literal.innards]) : fields.Direct .templateInnards) registry (fuel + 1)
  obtain ⟨u, argument⟩ := quotes.run_argument registry fuel
  rw [literal.innards] at innards
  rw [given] at argument
  have word : Dax.Quotes
      ((if Dax.isBare value then some value else none).getD
        ("'" ++ Dax.singleQuoteInnards (Js.templateInnards value) ++ "'"))
      (if Dax.isBare value then Dax.bareValue value else value) := by
    split
    · next bare => exact .bareText bare
    · exact .singleQuoted value
  obtain ⟨shown, shows, spells⟩ := word
  refine ⟨_, shown, _, u, v, argument, innards, Js.templateValue_templateInnards value,
    shows.templateValue, spells.words?, ?_⟩
  rw [spells.words?]
  by_cases bare : Dax.isBare value
  · simp [bare, Dax.bareValue_eq_self_iff (Bool.and_eq_true_iff.1 bare).2]
  · simp [bare]

/-- An apostrophe in double quotes, both of them escaped in a string: the word has lost them. -/
theorem argument_doubleQuoted_apostrophe :
    (LiteralPart.node (.leaf .stringContent "\\\"'\\\"")).DoubleQuoted "\"'\"" ∧
    ∃ id t piece shown u,
      Compile.run .empty ((LiteralPart.node (.leaf .stringContent "\\\"'\\\"")).make
        (.ofFuel .standard 2) .none) = (.ok id, t) ∧
      Compile.run t (argument (.ofFuel .standard 2) id) = (.ok (some piece), u) ∧
      Js.templateValue piece = .ok shown ∧ Shell.words? shown = some (["'"] : List Text) := by
  have quoted : (LiteralPart.node (.leaf .stringContent "\\\"'\\\"")).DoubleQuoted "\"'\"" :=
    .content rfl
  obtain ⟨id, t, made, each⟩ :=
    argument_doubleQuoted .standard (by decide : 2 ≤ 2) .none .empty quoted
  obtain ⟨piece, shown, innards, u, v, argument, _, _, value, word, _⟩ := each []
  exact ⟨quoted, id, t, piece, shown, u, made, argument, value, word⟩

end Arguments

end ShellToDeno
