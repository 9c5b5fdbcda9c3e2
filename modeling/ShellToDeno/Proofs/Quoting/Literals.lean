import ShellToDeno.Proofs.Quoting.Words
import ShellToDeno.Proofs.Fragment.Derivation
import ShellToDeno.Proofs.Compile.Steps
import ShellToDeno.Compile.Node

/-!
# Literal fragments

A literal is text that the script spells out. Its fragment supplies texts only, so reading one of
its forms asks at most for other forms of the same fragment and never fails for want of them. The
forms that an argument is put together from can therefore be read in any order and at any time
(`Holds.run_read`, `Holds.readAny`).
-/
namespace ShellToDeno

/-- The text of a form that is supplied as a text. -/
def Fields.text? (fields : Fields) (form : Form) : Option Text :=
  match fields.look form with
  | some (.text value) => some value
  | _ => none

/-- All forms are texts. -/
def Fields.IsText (fields : Fields) : Prop := ∀ entry ∈ fields, ∃ text, entry.2 = .text text

theorem Fields.IsText.look {fields : Fields} (texts : fields.IsText) (form : Form) :
    fields.look form = (fields.text? form).map .text := by
  rw [text?]
  cases found : fields.look form with
  | none => rfl
  | some recipe =>
    obtain ⟨text, rfl⟩ := texts _ (mem_of_look found)
    rfl

/-- Forms of a literal that are made without asking for others: a literal that supplies no argument
has none. -/
def Fields.Direct (fields : Fields) (form : Form) : Prop :=
  form = .argument ∨ (fields.text? form).isSome

/-- A fragment with given forms of which some may have been read. -/
structure Fragment.Holds (f : Fragment) (fields : Fields) : Prop where
  supplied : ∀ form, f.recipe? (some form) = fields.look form
  values : f.values = none
  kept : ∀ form slot, fields.Direct form → f.slot? form = some slot →
    slot = .known (fields.text? form)

namespace CompileState
variable {s t : CompileState} {id : FragmentId} {fields : Fields} {form : Form}

def Holds (s : CompileState) (id : FragmentId) (fields : Fields) : Prop :=
  ∃ f, s.fragments[id]? = some f ∧ f.Holds fields

/-- Nothing but one fragment has changed. -/
structure Touches (id : FragmentId) (s t : CompileState) : Prop where
  size : t.fragments.size = s.fragments.size
  frame : ∀ j, j ≠ id → t.fragments[j]? = s.fragments[j]?

theorem Touches.refl (id : FragmentId) (s : CompileState) : Touches id s s := ⟨rfl, fun _ _ => rfl⟩

theorem Touches.trans {u : CompileState} (first : Touches id s t) (second : Touches id t u) :
    Touches id s u :=
  ⟨second.size.trans first.size, fun j other => (second.frame j other).trans (first.frame j other)⟩

theorem Touches.holds {j : FragmentId} (touches : Touches id s t) (other : j ≠ id)
    (holds : s.Holds j fields) : t.Holds j fields := by
  obtain ⟨f, present, inner⟩ := holds
  exact ⟨f, (touches.frame j other).trans present, inner⟩

theorem touches_setSlot (slot : Slot) : Touches id s (s.setSlot id form slot) := by
  refine ⟨size_setSlot slot, fun j other => ?_⟩
  simp [getElem?_setSlot, other]

/-- What holds a literal still holds it after a form was set to what it is. -/
theorem Holds.setSlot (holds : s.Holds id fields) {slot : Slot}
    (right : fields.Direct form → slot = .known (fields.text? form)) :
    (s.setSlot id form slot).Holds id fields := by
  obtain ⟨f, present, inner⟩ := holds
  refine ⟨f.setSlot form slot, by simp [getElem?_setSlot,
    present], inner.supplied, inner.values, ?_⟩
  intro g found direct kept
  by_cases same : g = form
  · subst same
    rw [Fragment.slot?_setSlot_self] at kept
    rw [← Option.some.inj kept]
    exact right direct
  · rw [Fragment.slot?_setSlot_of_ne same] at kept
    exact inner.kept g found direct kept

theorem setSlot_setSlot (first second : Slot) :
    (s.setSlot id form first).setSlot id form second = s.setSlot id form second := by
  have once (f : Fragment) : (f.setSlot form first).setSlot form second =
      f.setSlot form second := by
    simp [Fragment.setSlot]
  have fragments : ((s.setSlot id form first).setSlot id form second).fragments =
      (s.setSlot id form second).fragments := by
    apply Array.ext_getElem?
    intro j
    rw [getElem?_setSlot, getElem?_setSlot, getElem?_setSlot]
    by_cases same : j = id
    · simp [same, Function.comp_def, once]
    · simp [same]
  simpa [setSlot] using fragments

/-- A direct form is what it was supplied as, whatever has been read before. -/
theorem Holds.run_read (holds : s.Holds id fields) (texts : fields.IsText)
    (direct : fields.Direct form) (registry : Registry) (fuel : Nat) :
    ∃ t, Compile.run s ((Compiler.ofFuel registry (fuel + 1)).read id form) =
      (.ok (fields.text? form), t) ∧
      t.Holds id fields ∧ Touches id s t ∧ ∀ g, g ≠ form → t.slot? id g = s.slot? id g := by
  have held := holds
  obtain ⟨f, present, inner⟩ := held
  cases kept : s.slot? id form with
  | some slot =>
    have known : slot = .known (fields.text? form) :=
      inner.kept form slot direct (by simpa [slot?, present] using kept)
    subst known
    exact ⟨s, Fragment.run_read_known kept, holds, .refl id s, fun _ _ => rfl⟩
  | none =>
    have making : Compile.run (s.setSlot id form .cooking)
        (Fragment.making (.ofFuel registry fuel) id f form) =
        (.ok (fields.text? form), s.setSlot id form .cooking) := by
      rw [Fragment.making, inner.supplied, texts.look]
      cases found : fields.text? form with
      | some text => rfl
      | none =>
        rcases direct with rfl | supplied
        · rfl
        · simp [found] at supplied
    refine ⟨s.setSlot id form (.known (fields.text? form)), ?_, holds.setSlot fun _ => rfl,
      touches_setSlot _, fun g other => slot?_setSlot_of_ne fun same => other same.2⟩
    refine (Fragment.run_read_new present kept).trans ?_
    rw [Fragment.run_make present, making]
    simp [getElem?_setSlot, present, setSlot_setSlot]

/-- A step that leaves a literal as it is and all other fragments alone. -/
def Spares (id : FragmentId) (fields : Fields) (s t : CompileState) : Prop :=
  t.Holds id fields ∧ Touches id s t

theorem Holds.query (holds : s.Holds id fields) {c : Compiler} {q : Query}
    (reads : ∀ {s : CompileState} (form : Option Form), s.Holds id fields →
      Spares id fields s (Compile.run s (c.readAny id form)).2)
    (asks : q.Asks fun j _ => j = id) : Spares id fields s (Compile.run s (q.run c)).2 := by
  induction asks generalizing s with
  | give value => exact ⟨holds, .refl id s⟩
  | @ask j form next here rest ih =>
    subst here
    rw [Query.run, Compile.run_bind]
    have first := reads form holds
    generalize Compile.run s (c.readAny j form) = step at first ⊢
    obtain ⟨outcome, t⟩ := step
    cases outcome with
    | error fault => exact first
    | ok value =>
      have later := ih value first.1
      exact ⟨later.1, first.2.trans later.2⟩

/-- A form that is not direct is derived from other forms of the same fragment. -/
theorem Holds.query?_derived (holds : s.Holds id fields) (texts : fields.IsText)
    (indirect : ¬fields.Direct form) :
    ∃ given, s.query? id form = some (form.derivation id given) ∧
      (form.derivation id given).Asks fun j _ => j = id := by
  obtain ⟨f, present, inner⟩ := holds
  have unsupplied : fields.text? form = none := by
    rw [← Option.not_isSome_iff_eq_none]
    exact fun supplied => indirect (.inr supplied)
  refine ⟨fun g => f.supplies (some g), ?_, ?_⟩
  · simp [query?, present, Fragment.query?, inner.supplied, texts.look, unsupplied]
  · refine (Form.derivation_asks _ ?_).imp fun _ _ below => below.1
    simp [Fragment.supplies, inner.supplied, texts.look, unsupplied]

/-- No read of a literal spoils it. -/
theorem Holds.readAny (texts : fields.IsText) (registry : Registry) (fuel : Nat)
    (form : Option Form) (holds : s.Holds id fields) :
    Spares id fields s (Compile.run s ((Compiler.ofFuel registry fuel).readAny id form)).2 := by
  induction fuel generalizing s form with
  | zero => exact ⟨holds, .refl id s⟩
  | succ fuel ih =>
    cases form with
    | none => exact ⟨holds, .refl id s⟩
    | some form =>
      by_cases direct : fields.Direct form
      · obtain ⟨t, run, kept⟩ := holds.run_read texts direct registry fuel
        rw [Compiler.read] at run
        rw [run]
        exact ⟨kept.1, kept.2.1⟩
      · change Spares id fields s (Compile.run s (Fragment.read _ id (some form))).2
        have held := holds
        obtain ⟨f, present, inner⟩ := held
        cases slot : s.slot? id form with
        | some slot' =>
          cases slot' with
          | known value =>
            rw [Fragment.run_read_known slot]
            exact ⟨holds, .refl id s⟩
          | cooking =>
            rw [Fragment.run_read_cooking slot]
            exact ⟨holds, .refl id s⟩
        | none =>
          obtain ⟨given, derived, asks⟩ := holds.query?_derived texts direct
          have marked : (s.setSlot id form .cooking).Holds id fields :=
            holds.setSlot fun supplied => absurd supplied direct
          have step := marked.query (fun form => ih form) asks
          rw [Fragment.run_read_new present slot, Fragment.run_make_query derived]
          generalize Compile.run (s.setSlot id form .cooking) _ = made at step ⊢
          obtain ⟨outcome, t⟩ := made
          have touched := (touches_setSlot .cooking).trans step.2
          cases outcome with
          | error fault => exact ⟨step.1, touched⟩
          | ok value =>
            obtain ⟨g, kept, _⟩ := step.1
            simp only [kept]
            exact ⟨step.1.setSlot fun supplied => absurd supplied direct,
              touched.trans (touches_setSlot _)⟩

theorem holds_ofFields (made : s.fragments[id]? = some (.ofFields fields)) : s.Holds id fields :=
  ⟨.ofFields fields, made, Fragment.recipe?_ofFields fields, rfl, fun _ _ _ kept => by
    simp [Fragment.slot?, Fragment.ofFields] at kept⟩

theorem holds_push (fields : Fields) :
    (s.push (.ofFields fields)).Holds s.fragments.size fields :=
  holds_ofFields (by simp [push])

theorem Holds.push (holds : s.Holds id fields) (f : Fragment) : (s.push f).Holds id fields := by
  obtain ⟨g, present, inner⟩ := holds
  refine ⟨g, ?_, inner⟩
  have inside := (Array.getElem?_eq_some_iff.1 present).1
  simpa [CompileState.push, Array.getElem?_push, Nat.ne_of_lt inside] using present

/-- A form of a fragment that was just added is what its recipe gives. -/
theorem run_read_push {form : Form} {recipe : Recipe} {value : Option Text} {registry : Registry}
    {fuel : Nat} (supplied : fields.look form = some recipe)
    (cooked : Compile.run ((s.push (.ofFields fields)).setSlot s.fragments.size form .cooking)
      (Fragment.cook (.ofFuel registry fuel) recipe) = (.ok value, t))
    (inside : s.fragments.size < t.fragments.size) :
    Compile.run (s.push (.ofFields fields))
      ((Compiler.ofFuel registry (fuel + 1)).read s.fragments.size form) =
      (.ok value, t.setSlot s.fragments.size form (.known value)) := by
  have present : (s.push (.ofFields fields)).fragments[s.fragments.size]? =
      some (.ofFields fields) := by simp [push]
  have unread : (s.push (.ofFields fields)).slot? s.fragments.size form = none := by
    rw [slot?_push rfl]
    simp [slot?]
  refine (Fragment.run_read_new present unread).trans ?_
  rw [Fragment.run_make present, Fragment.making, Fragment.recipe?_ofFields, supplied]
  simp [cooked, inside]

end CompileState

/-- The forms of a literal with a given value. -/
structure Fields.Literal (fields : Fields) (value : Text) : Prop where
  texts : fields.IsText
  innards : fields.text? .templateInnards = some (Js.templateInnards value)
  quoted : fields.text? .quotedInnards = some (Dax.singleQuoteInnards (Js.templateInnards value))
  value : (fields.text? .value).isSome
  unquoted : fields.text? .singleQuoted = none

/-- Whether a word begins with the home directory. -/
def Shell.isHome (text : Text) : Bool := text == "~" || Text.begins "~/" text

/-- Nodes of which the value is spelled out. -/
inductive Node.Means : Node → Text → Prop where
  | word {n : Node} (kind : n.kind = .word) (home : Shell.isHome n.text = false) :
    n.Means (Shell.unescapeWord n.text)
  | number {n : Node} (kind : n.kind = .number) (digits : Text.isDigits n.text) : n.Means n.text
  | rawString {n : Node} {inner : Text} (kind : n.kind = .rawString)
    (text : n.text = "'" ++ inner ++ "'") : n.Means inner
  | ansiString {n : Node} {body : Text} (kind : n.kind = .ansiString)
    (text : n.text = "$'" ++ body ++ "'") : n.Means (Shell.ansiUnescape body)
  | stringContent {n : Node} (kind : n.kind = .stringContent) :
    n.Means (Shell.unescapeDoubleQuoted n.text)

/-- How the value of a literal node is written: a number as it is, a string in single quotes as a
string literal, and other text as a template. -/
def Node.valueForm (n : Node) (value : Text) : Text :=
  match n.kind with
  | .number => value
  | .rawString | .ansiString => Js.stringLiteral value
  | _ => Js.template (Js.templateInnards value)

/-- A literal node that can stand as an argument. What is not escaped in a bare word must not part
it, and something has to be there. -/
structure Node.IsArgument (n : Node) : Prop where
  content : n.kind ≠ .stringContent
  word : n.kind = .word → Compile.isPlainWord n.text →
    n.text ≠ [] ∧ ∀ b ∈ n.text, Shell.isOrdinary b

theorem Fields.Literal.literalFields (value : Text) :
    Literal (Arguments.literalFields (Js.templateInnards value)) value :=
  ⟨by simp [IsText, Arguments.literalFields], rfl, rfl, rfl, rfl⟩

theorem Fields.Literal.cons_argument {fields : Fields} {value : Text}
    (literal : fields.Literal value)
    (text : Text) : Literal ((.argument, .text text) :: fields) value :=
  ⟨by simpa [IsText] using literal.texts, literal.innards, literal.quoted, literal.value,
    literal.unquoted⟩

theorem Fields.Literal.quotedFields (value : Text) :
    Literal ((.value, .text (Js.stringLiteral value)) ::
      Arguments.literalFields (Js.templateInnards value)) value :=
  ⟨by simp [IsText, Arguments.literalFields], rfl, rfl, rfl, rfl⟩

theorem Text.bare_of_isDigits {digits : Text} (isDigits : Text.isDigits digits) :
    digits ≠ [] ∧ ∀ b ∈ digits, Dax.isBareByte b := by
  simp only [Text.isDigits, Bool.and_eq_true, Bool.not_eq_true', List.isEmpty_eq_false_iff,
    List.all_eq_true] at isDigits
  refine ⟨isDigits.1, fun b inside => ?_⟩
  simp [Dax.isBareByte, Text.isWordByte, isDigits.2 b inside]

theorem Fields.Literal.number {digits : Text} (isDigits : Text.isDigits digits) :
    Literal ([.argument, .quotedInnards, .templateInnards, .number, .value, .condition].map
      fun form => (form, Recipe.text digits)) digits := by
  have bare := (Text.bare_of_isDigits isDigits).2
  refine ⟨by simp [IsText], ?_, ?_, rfl, rfl⟩
  · rw [Js.templateInnards_of_bare bare]
    rfl
  · rw [Js.templateInnards_of_bare bare, Js.singleQuoteInnards_of_bare bare]
    rfl

/-- A step that does nothing but make a fragment with given forms. -/
def Makes (x : Compile FragmentId) (fields : Fields) : Prop :=
  ∀ s, Compile.run s x = (.ok s.fragments.size, s.push (.ofFields fields))

theorem Makes.node {c : Compiler} {n : Node} {context : Context} {fields : Fields}
    (branch : Makes (Compile.branch c n context) fields) :
    Makes (Compile.node c n context) fields := by
  intro s
  rw [Compile.node, Compile.run_tryCatch, branch]

/-- A text is a literal, which stands bare where it may. -/
theorem Arguments.literal_makes (value : Text) :
    ∃ fields : Fields, fields.Literal value ∧ Makes (literal value) fields ∧
      fields.text? .argument = (if Dax.isBare value then some value else none) ∧
      fields.text? .value = some (Js.template (Js.templateInnards value)) := by
  by_cases bare : Dax.isBare value
  · refine ⟨_, .cons_argument (.literalFields value) value,
      fun s => ?_, by rw [if_pos bare]; rfl, rfl⟩
    rw [literal, if_pos bare]
    rfl
  · refine ⟨_, .literalFields value, fun s => ?_, by rw [if_neg bare]; rfl, rfl⟩
    rw [literal, if_neg bare]
    rfl

theorem Shell.unescapeWord_of_plain {text : Text} (plain : Compile.isPlainWord text) :
    unescapeWord text = text := by
  fun_induction unescapeWord text with
  | case1 => rfl
  | case2 rest ih => simp +decide [Compile.isPlainWord] at plain
  | case3 b rest newline ih => simp +decide [Compile.isPlainWord] at plain
  | case4 b rest newline pair ih =>
    rw [ih (by simp_all [Compile.isPlainWord])]

theorem Compile.word_makes {n : Node} (home : Shell.isHome n.text = false) :
    ∃ fields, fields.Literal (Shell.unescapeWord n.text) ∧ Makes (word n) fields ∧
      ((isPlainWord n.text → n.text ≠ [] ∧ ∀ b ∈ n.text, Shell.isOrdinary b) →
        ∀ text, fields.text? .argument = some text → Dax.Quotes text (Shell.unescapeWord n.text)) ∧
      fields.text? .value = some
        (Js.template (Js.templateInnards (Shell.unescapeWord n.text))) := by
  have away : ¬(n.text == "~" || Text.begins "~/" n.text) := by simpa [Shell.isHome] using home
  by_cases plain : isPlainWord n.text
  · refine ⟨_, .cons_argument (.literalFields _) (Dax.wordArgument n.text), fun s => ?_, ?_, rfl⟩
    · simp only [word, if_neg away, if_pos plain]
      rfl
    · rintro sound text ⟨⟩
      obtain ⟨some, ordinary⟩ := sound plain
      rw [Shell.unescapeWord_of_plain plain]
      exact .wordArgument ordinary some
  · refine ⟨_, .literalFields _, fun s => ?_, ?_, rfl⟩
    · simp only [word, if_neg away, if_neg plain]
      rfl
    · rintro _ text ⟨⟩

theorem Text.cutStart_append (start t : Text) : cutStart start (start ++ t) = t := by
  simp [cutStart, cutStart?]

theorem Text.cutEnd_append (t ending : Text) : cutEnd ending (t ++ ending) = t := by
  simp [cutEnd, cutEnd?]

/-- A literal node is compiled to a literal fragment, in which its value is written by its kind. -/
theorem Node.Means.makes_value {n : Node} {value : Text} (means : n.Means value)
    (registry : Registry)
    (fuel : Nat) (context : Context) :
    ∃ fields, fields.Literal value ∧
      Makes ((Compiler.ofFuel registry (fuel + 1)).compile n context) fields ∧
      (n.IsArgument → ∀ text, fields.text? .argument = some text → Dax.Quotes text value) ∧
      fields.text? .value = some (n.valueForm value) := by
  cases means with
  | word kind home =>
    obtain ⟨fields, literal, makes, quotes, written⟩ := Compile.word_makes home
    refine ⟨fields, literal, .node ?_, fun argument => quotes (argument.word kind), ?_⟩
    · rwa [Compile.branch, kind]
    · rwa [Node.valueForm, kind]
  | number kind digits =>
    refine ⟨_, .number digits, .node fun s => ?_, ?_, ?_⟩
    · rw [Compile.branch, kind]
      rfl
    · rintro _ text ⟨⟩
      obtain ⟨some, bare⟩ := Text.bare_of_isDigits digits
      exact .bare bare some
    · rw [Node.valueForm, kind]
      rfl
  | rawString kind text =>
    refine ⟨_, .quotedFields value, .node fun s => ?_, ?_, ?_⟩
    · rw [Compile.branch, kind]
      simp only [Compile.rawString, text, List.append_assoc, Text.cutStart_append,
        Text.cutEnd_append]
      rfl
    · rintro _ text ⟨⟩
    · rw [Node.valueForm, kind]
      rfl
  | ansiString kind text =>
    refine ⟨_, .quotedFields _, .node fun s => ?_, ?_, ?_⟩
    · rw [Compile.branch, kind]
      simp only [Compile.ansiString, text, List.append_assoc, Text.cutStart_append,
        Text.cutEnd_append]
      rfl
    · rintro _ text ⟨⟩
    · rw [Node.valueForm, kind]
      rfl
  | stringContent kind =>
    obtain ⟨fields, literal, makes, _, written⟩ :=
      Arguments.literal_makes (Shell.unescapeDoubleQuoted n.text)
    refine ⟨fields, literal, .node ?_, fun argument => absurd kind argument.content, ?_⟩
    · rwa [Compile.branch, kind]
    · rwa [Node.valueForm, kind]

theorem Node.Means.makes {n : Node} {value : Text} (means : n.Means value) (registry : Registry)
    (fuel : Nat) (context : Context) :
    ∃ fields, fields.Literal value ∧
      Makes ((Compiler.ofFuel registry (fuel + 1)).compile n context) fields ∧
      (n.IsArgument → ∀ text, fields.text? .argument = some text → Dax.Quotes text value) := by
  obtain ⟨fields, literal, makes, quotes, _⟩ := means.makes_value registry fuel context
  exact ⟨fields, literal, makes, quotes⟩

end ShellToDeno
