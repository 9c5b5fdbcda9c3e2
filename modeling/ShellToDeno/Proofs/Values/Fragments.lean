import ShellToDeno.Proofs.Values.Literals

/-!
# Values of literal fragments

The value of a fragment that combines literals is derived by way of its template: a template that
holds nothing but a numeral gives up its quotes. The derivation asks forms of the joined fragment
and of its parts, which may have been read before in any order. `Combines` is what all these reads
keep: whatever is known of the joined fragment is what the derivation gives (`Combines.run_read`,
`Combines.readAny`). So the value of joined literals is known (`Arguments.value_literals`), and it
is converted to the joined text unless this is written as a number.
-/
namespace ShellToDeno

/-- Forms that do not depend on how a fragment is quoted in a command string. -/
def Form.isUnquoted : Form → Bool
  | argument | quotedInnards | singleQuoted => false
  | _ => true

/-- The forms of joined literals with the given template. -/
def joinedForm (innards : Text) : Form → Option Text
  | .templateInnards => some innards
  | .template | .stringValue => some (Js.template innards)
  | .number => quotedNumber? (Js.template innards)
  | .value | .condition | .statement =>
    some ((quotedNumber? (Js.template innards)).getD (Js.template innards))
  | .negation =>
    some ("!(" ++ (quotedNumber? (Js.template innards)).getD (Js.template innards) ++ ")")
  | _ => none

/-- Forms are derived from each other as listed. -/
theorem eval_derivation_joined (id : FragmentId) (innards : Text) {given : Form → Bool}
    {form : Form}
    (unquoted : form.isUnquoted) (number : given .number = false)
      (condition : given .condition = false)
    (derived : form ≠ .templateInnards) :
    (form.derivation id given).eval (fun _ g => some (g.bind (joinedForm innards))) =
      some (joinedForm innards form) := by
  cases form
  case argument | quotedInnards | singleQuoted => cases unquoted
  case templateInnards => exact absurd rfl derived
  case stringValue => simp [Form.derivation, number, Query.first, Query.eval, joinedForm]
  case negation => simp [Form.derivation, condition, Query.via, Query.eval, joinedForm]
  case value =>
    cases stripped : quotedNumber? (Js.template innards) <;>
      simp [Form.derivation, Query.first, Query.eval, joinedForm, stripped]
  all_goals simp [Form.derivation, Query.first, Query.via, Query.eval, joinedForm]

/-- No form is made from the argument or the quoted forms. -/
theorem isUnquoted_asked {given : Form → Bool} {form g : Form} (unquoted : form.isUnquoted)
    (number : given .number = false) (member : g ∈ form.asked given) :
    g.isUnquoted ∧ g.depth < form.depth := by
  have listed : g ∈ form.asked fun _ => false := by
    cases form
    case stringValue => simpa [Form.asked, number] using member
    all_goals exact member
  have lower : ∀ g ∈ form.asked fun _ => false, g.isUnquoted ∧ g.depth < form.depth := by
    cases form
    case argument | quotedInnards | singleQuoted => cases unquoted
    all_goals decide
  exact lower g listed

/-- Recipes that read nothing but the given fragments. -/
inductive Recipe.Pieced (ids : List FragmentId) : Recipe → Prop where
  | text (t : Text) : Pieced ids (.text t)
  | joined (form : Form) : Pieced ids (.joined form ids)
  | joinedArgument : Pieced ids (.joinedArgument ids)
  | joinedQuoted : Pieced ids (.joinedQuoted ids)

/-- The template of joined literals. -/
def joinedInnards (entries : List (FragmentId × Text)) : Text :=
  ((entries.map Prod.snd).map Js.templateInnards).flatten

/-- A fragment that combines literals. Of the forms that are busy nothing is known. -/
structure Fragment.Combines (f : Fragment) (busy : List Form) (entries : List (FragmentId × Text)) :
    Prop where
  innards : f.recipe? (some .templateInnards) =
      some (.joined .templateInnards (entries.map Prod.fst)) ∨
    entries = [] ∧ f.recipe? (some .templateInnards) = some (.text [])
  derived : ∀ form, form.isUnquoted → form ≠ .templateInnards → f.recipe? (some form) = none
  pieced : ∀ form recipe, form.isUnquoted = false → f.recipe? (some form) = some recipe →
    recipe.Pieced (entries.map Prod.fst)
  kept : ∀ form slot, form.isUnquoted → f.slot? form = some slot →
    slot = .known (joinedForm (joinedInnards entries) form) ∨ form ∈ busy

namespace CompileState
variable {s t : CompileState} {busy : List Form} {id : FragmentId} {form : Form}
  {entries : List (FragmentId × Text)}

structure Combines (s : CompileState) (busy : List Form) (id : FragmentId)
    (entries : List (FragmentId × Text)) : Prop where
  literals : s.Literals entries
  fragment : ∃ f, s.fragments[id]? = some f ∧ f.Combines busy entries

/-- The value of a literal is supplied, and that of joined literals is not. -/
theorem Combines.not_isLiteral (combines : s.Combines busy id entries) (value : Text) :
    ¬s.IsLiteral id value := by
  rintro ⟨fields, literal, g, here, inner⟩
  obtain ⟨f, present, shape⟩ := combines.fragment
  obtain rfl := Option.some.inj (present.symm.trans here)
  have supplied := inner.supplied .value
  rw [shape.derived .value rfl (by decide), literal.texts.look] at supplied
  have given := literal.value
  cases text : fields.text? .value with
  | none => simp [text] at given
  | some shown => simp [text] at supplied

theorem KeepsLiterals.combines (keeps : KeepsLiterals s t) (combines : s.Combines busy id entries) :
    t.Combines busy id entries := by
  obtain ⟨f, present, shape⟩ := combines.fragment
  exact ⟨keeps.literals combines.literals, f,
    (keeps.frame combines.not_isLiteral).trans present, shape⟩

/-- A slot may be set to what its form is, or made busy. -/
theorem Combines.setSlot (combines : s.Combines busy id entries) {slot : Slot} {now : List Form}
    (here : form.isUnquoted → slot = .known (joinedForm (joinedInnards entries) form) ∨ form ∈ now)
    (others : ∀ g ∈ busy, g = form ∨ g ∈ now) :
      (s.setSlot id form slot).Combines now id entries := by
  obtain ⟨f, present, shape⟩ := combines.fragment
  refine ⟨fun entry inside => ?_, f.setSlot form slot, by simp [getElem?_setSlot, present],
    shape.innards, shape.derived, shape.pieced, fun g kept unquoted found => ?_⟩
  · have literal := combines.literals entry inside
    refine literal.of_eq ((touches_setSlot slot).frame _ ?_)
    intro same
    rw [same] at literal
    exact combines.not_isLiteral _ literal
  · by_cases same : g = form
    · subst same
      rw [Fragment.slot?_setSlot_self] at found
      rw [← Option.some.inj found]
      exact here unquoted
    · rw [Fragment.slot?_setSlot_of_ne same] at found
      rcases shape.kept g kept unquoted found with known | member
      · exact .inl known
      · exact .inr ((others g member).resolve_left same)

/-- A query of forms that can be read is answered by what these forms are. -/
theorem Combines.run_query {c : Compiler} {P : Form → Prop}
    (reads : ∀ {s : CompileState} (g : Form), P g → s.Combines busy id entries →
      ∃ t, Compile.run s (c.read id g) = (.ok (joinedForm (joinedInnards entries) g), t) ∧
        t.Combines busy id entries)
    {q : Query} (asks : q.Asks fun j g => j = id ∧ ∃ h, g = some h ∧ P h)
    (combines : s.Combines busy id entries) :
    ∃ value t, q.eval (fun _ g => some (g.bind (joinedForm (joinedInnards entries)))) = some value ∧
      Compile.run s (q.run c) = (.ok value, t) ∧ t.Combines busy id entries := by
  induction asks generalizing s with
  | give value => exact ⟨value, s, rfl, rfl, combines⟩
  | @ask j g next here _ ih =>
    obtain ⟨rfl, h, rfl, asked⟩ := here
    obtain ⟨t, read, kept⟩ := reads h asked combines
    obtain ⟨value, u, evaluated, run, joined⟩ := ih (joinedForm (joinedInnards entries) h) kept
    refine ⟨value, u, evaluated, ?_, joined⟩
    rw [Query.run]
    exact (Compile.run_bind_ok read _).trans run

/-- What the template of joined literals is made from. -/
theorem Combines.run_innards {f : Fragment} (shape : f.Combines busy entries)
    (combines : s.Combines busy id entries) (registry : Registry) (fuel : Nat) :
    ∃ t, Compile.run s (Fragment.making (.ofFuel registry (fuel + 1)) id f .templateInnards) =
      (.ok (some (joinedInnards entries)), t) ∧ t.Combines busy id entries := by
  rcases shape.innards with joined | ⟨empty, text⟩
  · obtain ⟨t, run, keeps⟩ := Arguments.run_joined registry fuel combines.literals
    refine ⟨t, ?_, keeps.combines combines⟩
    rw [Fragment.making, joined]
    simp only [Fragment.cook, Compile.run_bind_ok run, Compile.run_pure]
    rfl
  · subst empty
    refine ⟨s, ?_, combines⟩
    rw [Fragment.making, text]
    rfl

/-- Forms that do not depend on quoting can be read whenever no form that is derived from them is
being made. -/
theorem Combines.run_read (registry : Registry) {fuel : Nat} (unquoted : form.isUnquoted)
    (enough : form.depth + 2 ≤ fuel) (above : ∀ g ∈ busy, form.depth < g.depth)
    (combines : s.Combines busy id entries) :
    ∃ t, Compile.run s ((Compiler.ofFuel registry fuel).read id form) =
      (.ok (joinedForm (joinedInnards entries) form), t) ∧ t.Combines busy id entries := by
  induction fuel generalizing s form busy with
  | zero => omega
  | succ fuel ih =>
    have free : form ∉ busy := fun member => Nat.lt_irrefl _ (above form member)
    obtain ⟨f, present, shape⟩ := combines.fragment
    cases slot : s.slot? id form with
    | some kept =>
      have found : f.slot? form = some kept := by simpa [slot?, present] using slot
      obtain rfl := (shape.kept form kept unquoted found).resolve_right free
      exact ⟨s, Fragment.run_read_known slot, combines⟩
    | none =>
      have marked : (s.setSlot id form .cooking).Combines (form :: busy) id entries :=
        combines.setSlot (fun _ => .inr (by simp)) fun g inside => .inr (by simp [inside])
      have making : ∃ t, Compile.run (s.setSlot id form .cooking)
          (Fragment.making (.ofFuel registry fuel) id f form) =
            (.ok (joinedForm (joinedInnards entries) form), t) ∧
          t.Combines (form :: busy) id entries := by
        by_cases innards : form = .templateInnards
        · subst innards
          obtain ⟨less, rfl⟩ : ∃ less, fuel = less + 1 := ⟨fuel - 1, by omega⟩
          have weaker : f.Combines (.templateInnards :: busy) entries :=
            ⟨shape.innards, shape.derived, shape.pieced, fun g kept unquoted found =>
              (shape.kept g kept unquoted found).imp_right (List.mem_cons_of_mem _)⟩
          exact marked.run_innards weaker registry less
        · have unsupplied {g : Form} (unquoted : g.isUnquoted) (other : g ≠ .templateInnards) :
              f.supplies (some g) = false := by
            rw [Fragment.supplies, shape.derived g unquoted other]
            rfl
          have number := unsupplied (rfl : Form.number.isUnquoted) (by decide)
          have condition := unsupplied (rfl : Form.condition.isUnquoted) (by decide)
          have here : (s.setSlot id form .cooking).fragments[id]? =
              some (f.setSlot form .cooking) := by
            simp [getElem?_setSlot, present]
          obtain ⟨value, t, evaluated, run, kept⟩ := marked.run_query
            (fun g lower combines => ih lower.1 (by omega) (by
              intro h member
              rcases List.mem_cons.1 member with rfl | member
              · exact lower.2
              · exact Nat.lt_trans lower.2 (above h member)) combines)
            (Form.derivation_asks_of (fun g => f.supplies (some g)) form fun g member =>
              ⟨rfl, g, rfl, isUnquoted_asked unquoted number member⟩)
          rw [eval_derivation_joined id _ unquoted number condition innards] at evaluated
          obtain rfl := Option.some.inj evaluated
          refine ⟨t, ?_, kept⟩
          rw [Fragment.making, shape.derived form unquoted innards]
          exact (Fragment.run_derive here form).trans run
      obtain ⟨t, made, kept⟩ := making
      obtain ⟨g, still, _⟩ := kept.fragment
      refine ⟨t.setSlot id form (.known (joinedForm (joinedInnards entries) form)), ?_,
        kept.setSlot (fun _ => .inl rfl) fun g member => List.mem_cons.1 member⟩
      refine (Fragment.run_read_new present slot).trans ?_
      rw [Fragment.run_make present, made]
      simp only [still]

/-- A step that does nothing but read some literals. -/
def OnlyReads {α : Type} (entries : List (FragmentId × Text)) (x : Compile α) : Prop :=
  ∀ s : CompileState, s.Literals entries → KeepsLiterals s (Compile.run s x).2

namespace OnlyReads
variable {α β : Type} {registry : Registry} {fuel : Nat}

theorem pure (a : α) : OnlyReads entries (pure a) := fun s _ => .refl s

theorem bind {x : Compile α} {f : α → Compile β} (first : OnlyReads entries x)
    (second : ∀ a, OnlyReads entries (f a)) : OnlyReads entries (x >>= f) := by
  intro s literals
  have kept := first s literals
  rw [Compile.run_bind]
  generalize Compile.run s x = step at kept ⊢
  obtain ⟨outcome, t⟩ := step
  cases outcome with
  | error fault => exact kept
  | ok a => exact kept.trans (second a t (kept.literals literals))

theorem read {j : FragmentId} (listed : j ∈ entries.map Prod.fst) (form : Form) :
    OnlyReads entries ((Compiler.ofFuel registry fuel).read j form) := by
  intro s literals
  obtain ⟨entry, inside, rfl⟩ := List.mem_map.1 listed
  exact (literals entry inside).keeps registry fuel (some form)

theorem interpolated {j : FragmentId} (listed : j ∈ entries.map Prod.fst) (form : Form) :
    OnlyReads entries (Arguments.interpolated (.ofFuel registry fuel) j form) :=
  (read listed form).bind fun _ => pure _

theorem bareQuoted {j : FragmentId} (listed : j ∈ entries.map Prod.fst) (forms : List Form) :
    OnlyReads entries (Fragment.bareQuoted (.ofFuel registry fuel) j forms) := by
  induction forms with
  | nil => exact pure none
  | cons form forms ih =>
    refine (read listed form).bind fun found => ?_
    cases found with
    | none => exact ih
    | some v =>
      dsimp only
      split
      · exact pure _
      · exact ih

theorem argumentPiece {j : FragmentId} (listed : j ∈ entries.map Prod.fst) :
    OnlyReads entries (Fragment.argumentPiece (.ofFuel registry fuel) j) := by
  refine (read listed .argument).bind fun found => ?_
  cases found with
  | some v => exact pure _
  | none =>
    refine (read listed .templateInnards).bind fun found => ?_
    cases found with
    | none => exact interpolated listed .value
    | some v =>
      dsimp only
      split
      · exact pure _
      · exact interpolated listed .value

theorem quotedPiece {j : FragmentId} (listed : j ∈ entries.map Prod.fst) :
    OnlyReads entries (Fragment.quotedPiece (.ofFuel registry fuel) j) := by
  refine (read listed .quotedInnards).bind fun found => ?_
  cases found with
  | some v => exact pure _
  | none =>
    refine (bareQuoted listed _).bind fun found => ?_
    cases found with
    | some v => exact pure _
    | none => exact interpolated listed .value

theorem joinPieces {piece : FragmentId → Compile (Option Text)} {ids : List FragmentId}
    (pieces : ∀ j ∈ ids, OnlyReads entries (piece j)) :
    OnlyReads entries (Fragment.joinPieces piece ids) := by
  induction ids with
  | nil => exact pure _
  | cons j ids ih =>
    refine (pieces j (by simp)).bind fun found => ?_
    cases found with
    | none => exact pure none
    | some text => exact (ih fun k inside => pieces k (by simp [inside])).bind fun _ => pure _

theorem mapM {γ : Type} {f : FragmentId → Compile γ} {ids : List FragmentId}
    (each : ∀ j ∈ ids, OnlyReads entries (f j)) : OnlyReads entries (ids.mapM f) := by
  induction ids with
  | nil => exact pure _
  | cons j ids ih =>
    rw [List.mapM_cons]
    exact (each j (by simp)).bind fun _ =>
      (ih fun k inside => each k (by simp [inside])).bind fun _ => pure _

theorem cook {recipe : Recipe} (pieced : recipe.Pieced (entries.map Prod.fst)) :
    OnlyReads entries (Fragment.cook (.ofFuel registry fuel) recipe) := by
  cases pieced with
  | text t => exact pure _
  | joined form =>
    exact (mapM fun j inside => (read inside form).bind fun _ => pure _).bind fun _ => pure _
  | joinedArgument => exact (joinPieces fun j inside => argumentPiece inside).bind fun _ => pure _
  | joinedQuoted => exact (joinPieces fun j inside => quotedPiece inside).bind fun _ => pure _

end OnlyReads

/-- Reading a quoted form leaves the others as they are if making it does. -/
theorem Combines.read_quoted {c : Compiler} (quoted : form.isUnquoted = false)
    (combines : s.Combines busy id entries)
    (making : ∀ {s : CompileState} {f : Fragment}, s.Combines busy id entries →
      f.Combines busy entries →
      (Compile.run s (Fragment.making c id f form)).2.Combines busy id entries) :
    (Compile.run s (Fragment.read c id (some form))).2.Combines busy id entries := by
  obtain ⟨f, present, shape⟩ := combines.fragment
  have free {s : CompileState} (combines : s.Combines busy id entries) (slot : Slot) :
      (s.setSlot id form slot).Combines busy id entries :=
    combines.setSlot (fun unquoted => absurd unquoted (by simp [quoted])) fun g inside =>
      .inr inside
  cases slot : s.slot? id form with
  | some kept =>
    cases kept with
    | known value =>
      rw [Fragment.run_read_known slot]
      exact combines
    | cooking =>
      rw [Fragment.run_read_cooking slot]
      exact combines
  | none =>
    have made := making (free combines .cooking) shape
    rw [Fragment.run_read_new present slot, Fragment.run_make present]
    generalize Compile.run (s.setSlot id form .cooking) _ = step at made ⊢
    obtain ⟨outcome, t⟩ := step
    cases outcome with
    | error fault => exact made
    | ok value =>
      obtain ⟨g, still, _⟩ := made.fragment
      simp only [still]
      exact free made _

/-- A quoted form that is supplied is made from the parts only. -/
theorem Combines.making_supplied (combines : s.Combines busy id entries) {f : Fragment}
    (shape : f.Combines busy entries) (quoted : form.isUnquoted = false) {recipe : Recipe}
    (given : f.recipe? (some form) = some recipe) (registry : Registry) (fuel : Nat) :
    (Compile.run s (Fragment.making (.ofFuel registry fuel) id f form)).2.Combines busy id
      entries := by
  rw [Fragment.making, given]
  exact (OnlyReads.cook (shape.pieced form recipe quoted given) s combines.literals).combines
    combines

theorem Combines.read_argument (combines : s.Combines busy id entries)
    (either : form = .argument ∨ form = .quotedInnards) (registry : Registry) (fuel : Nat) :
    (Compile.run s (Fragment.read (.ofFuel registry fuel) id (some form))).2.Combines busy id
      entries := by
  have quoted : form.isUnquoted = false := by rcases either with rfl | rfl <;> rfl
  refine combines.read_quoted quoted fun {s f} combines shape => ?_
  cases given : f.recipe? (some form) with
  | some recipe => exact combines.making_supplied shape quoted given registry fuel
  | none =>
    rw [Fragment.making, given]
    rcases either with rfl | rfl <;> exact combines

theorem Combines.read_singleQuoted (combines : s.Combines busy id entries) (registry : Registry)
    (fuel : Nat) :
    (Compile.run s (Fragment.read (.ofFuel registry (fuel + 1)) id (some .singleQuoted))).2.Combines
      busy id entries := by
  refine combines.read_quoted rfl fun {s f} combines shape => ?_
  cases given : f.recipe? (some .singleQuoted) with
  | some recipe => exact combines.making_supplied shape rfl given registry (fuel + 1)
  | none =>
    have kept := combines.read_argument (.inr rfl) registry fuel
    rw [Fragment.making, given]
    change (Compile.run s (Fragment.read (.ofFuel registry fuel) id
        (some .quotedInnards) >>= fun v =>
      pure (v.map fun v => ("'" : Text) ++ v ++ "'"))).2.Combines busy id entries
    rw [Compile.run_bind]
    generalize Compile.run s (Fragment.read _ id (some .quotedInnards)) = step at kept ⊢
    obtain ⟨outcome, t⟩ := step
    cases outcome <;> exact kept

/-- No read spoils what is joined. -/
theorem Combines.readAny (combines : s.Combines [] id entries) (registry : Registry) {fuel : Nat}
    (enough : 14 ≤ fuel) (form : Option Form) :
    (Compile.run s ((Compiler.ofFuel registry fuel).readAny id form)).2.Combines [] id entries := by
  obtain ⟨fuel, rfl⟩ : ∃ less, fuel = less + 2 := ⟨fuel - 2, by omega⟩
  cases form with
  | none => exact combines
  | some form =>
    cases quoted : form.isUnquoted with
    | true =>
      have low : form.depth ≤ 12 := by cases form <;> decide
      obtain ⟨t, run, kept⟩ := combines.run_read registry quoted (by omega : _ ≤ fuel + 2)
        (List.forall_mem_nil _)
      change (Compile.run s ((Compiler.ofFuel registry (fuel + 2)).read id form)).2.Combines []
          id entries
      rw [run]
      exact kept
    | false =>
      cases form
      case argument => exact combines.read_argument (.inl rfl) registry (fuel + 1)
      case quotedInnards => exact combines.read_argument (.inr rfl) registry (fuel + 1)
      case singleQuoted => exact combines.read_singleQuoted registry fuel
      all_goals cases quoted

/-- A fragment that was just joined from literals combines them. -/
theorem Literals.combines_push (literals : s.Literals entries) {argument quoted : Recipe}
    (argumentFrom : argument = .joined .argument (entries.map Prod.fst) ∨
      argument = .joinedArgument (entries.map Prod.fst))
    (quotedFrom : quoted = .joined .quotedInnards (entries.map Prod.fst) ∨
      quoted = .joinedQuoted (entries.map Prod.fst)) :
    (s.push (.ofFields [(.argument, argument), (.quotedInnards, quoted),
      (.templateInnards, .joined .templateInnards (entries.map Prod.fst))])).Combines []
        s.fragments.size entries := by
  refine ⟨fun entry inside => ?_, _, by simp [push]; rfl, .inl rfl, ?_, ?_, ?_⟩
  · obtain ⟨fields, text, holds⟩ := literals entry inside
    exact ⟨fields, text, holds.push _⟩
  · intro form unquoted other
    rw [Fragment.recipe?_ofFields]
    cases form
    case argument | quotedInnards => cases unquoted
    case templateInnards => exact absurd rfl other
    all_goals rfl
  · intro form recipe quoted supplied
    rw [Fragment.recipe?_ofFields] at supplied
    cases form
    case argument =>
      obtain rfl := Option.some.inj supplied
      rcases argumentFrom with rfl | rfl
      · exact .joined .argument
      · exact .joinedArgument
    case quotedInnards =>
      obtain rfl := Option.some.inj supplied
      rcases quotedFrom with rfl | rfl
      · exact .joined .quotedInnards
      · exact .joinedQuoted
    case singleQuoted => cases supplied
    all_goals cases quoted
  · intro form slot _ found
    simp [Fragment.slot?, Fragment.ofFields] at found

/-- Reads of joined literals and of their parts, in any order. -/
theorem Combines.afterAll (combines : s.Combines [] id entries) (registry : Registry) {fuel : Nat}
    (enough : 14 ≤ fuel) {history : List (FragmentId × Option Form)}
    (inside : ∀ reading ∈ history, reading.1 ∈ id :: entries.map Prod.fst) :
    (s.afterAll (.ofFuel registry fuel) (history.map fun r => .get r.1 r.2)).Combines [] id
      entries := by
  induction history generalizing s with
  | nil => exact combines
  | cons reading history ih =>
    obtain ⟨here, later⟩ := List.forall_mem_cons.1 inside
    refine ih ?_ later
    rcases List.mem_cons.1 here with same | part
    · rw [← same] at combines
      rw [← same]
      exact combines.readAny registry enough reading.2
    · obtain ⟨entry, listed, same⟩ := List.mem_map.1 part
      have kept := (combines.literals entry listed).keeps registry fuel reading.2
      rw [same] at kept
      exact kept.combines combines

end CompileState

/-- How the value of joined texts is written: as a template, or as the number in it. -/
def joinedValue (texts : List Text) : Text :=
  let shown := Js.template (texts.map Js.templateInnards).flatten
  (quotedNumber? shown).getD shown

/-- What the value of joined literals is converted to. -/
theorem literalText?_joined (texts : List Text) :
    Js.literalText? (joinedValue texts) =
      if Text.isNumeral texts.flatten then Js.numeralText? texts.flatten
      else if Js.MeetsLater texts then none else some texts.flatten := by
  rw [joinedValue, quotedNumber?_template, isNumeral_flatten_templateInnards]
  by_cases numeral : Text.isNumeral texts.flatten
  · obtain ⟨same, _⟩ := flatten_templateInnards_numeral numeral
    obtain ⟨⟨b, rest, digits, digit⟩, _⟩ := Text.digit_of_isNumeral numeral
    rw [if_pos numeral, if_pos numeral, Option.getD_some, same, digits]
    exact Js.literalText?_digit digit rest
  · rw [if_neg numeral, if_neg numeral, Option.getD_none]
    exact Js.literalText?_template texts

namespace Arguments
open CompileState

/-- The values of literals, alone or joined, after any reads. Each is a literal that is converted to
the text it stands for, with two exceptions: a number is written without quotes, also where joined
text looks like one, and joined text may begin a substitution. A number comes back as it was if it
is whole, below 2 ^ 53 and not padded with zeros; a padded one is no literal at all. -/
theorem value_literals (registry : Registry) {fuel : Nat} (enough : 14 ≤ fuel) (context : Context)
    (s : CompileState) {parts : List LiteralPart} {values : List Text}
    (means : List.Forall₂ LiteralPart.Means parts values) (valid : ∀ part ∈ parts,
      Utf8.isValid part.source) :
    (∃ ids t, Compile.run s (parts.mapM (LiteralPart.make (.ofFuel registry fuel) context)) =
      (.ok ids, t) ∧ ids.length = parts.length ∧
      ∀ history : List (FragmentId × Option Form), (∀ reading ∈ history, reading.1 ∈ ids) →
        (∀ id part value, (id, part, value) ∈ ids.zip (parts.zip values) → ∃ shown u,
          Compile.run (t.afterAll (.ofFuel registry fuel) (history.map fun r => .get r.1 r.2))
            ((Compiler.ofFuel registry fuel).read id .value) = (.ok (some shown), u) ∧
          Js.literalText? shown = if part.isNumber then Js.numeralText? value else some value) ∧
        ∀ chosen : List (FragmentId × Text), chosen ⊆ ids.zip values → chosen.length ≠ 1 → ∃ id u,
          Compile.run (t.afterAll (.ofFuel registry fuel) (history.map fun r => .get r.1 r.2))
            (combine (.ofFuel registry fuel) (chosen.map Prod.fst)) = (.ok id, u) ∧
          ∀ later : List (FragmentId × Option Form),
            (∀ reading ∈ later, reading.1 ∈ id :: chosen.map Prod.fst) → ∃ shown v,
            Compile.run (u.afterAll (.ofFuel registry fuel) (later.map fun r => .get r.1 r.2))
              ((Compiler.ofFuel registry fuel).read id .value) = (.ok (some shown), v) ∧
            Js.literalText? shown =
              if Text.isNumeral (chosen.map Prod.snd).flatten then
                Js.numeralText? (chosen.map Prod.snd).flatten
              else if Js.MeetsLater (chosen.map Prod.snd) then none
              else some (chosen.map Prod.snd).flatten) ∧
    (∀ digits : Text, digits.isPadded → Js.numeralText? digits = none) ∧
    ∀ digits : Text, digits.isDigits → digits.isPadded = false →
      Shell.digitsValue 10 digits < 2 ^ 53 → Js.numeralText? digits = some digits := by
  refine ⟨?_, fun _ => Js.numeralText?_padded, fun _ => Js.numeralText?_whole⟩
  obtain ⟨fuel, rfl⟩ : ∃ less, fuel = less + 1 := ⟨fuel - 1, by omega⟩
  obtain ⟨ids, t, made, length, literals, each, _⟩ := run_make registry fuel means context s
  refine ⟨ids, t, made, length, fun history inside => ?_⟩
  have listed : ∀ reading ∈ history, reading.1 ∈ (ids.zip values).map Prod.fst := by
    intro reading member
    rw [List.map_fst_zip]
    · exact inside reading member
    · rw [length, means.length_eq]
  have read := literals.afterAll registry (fuel + 1) listed
  constructor
  · intro id part value member
    obtain ⟨fields, text, written, holds⟩ := read.isPart (each _ member)
    have direct : fields.Direct .value := .inr (by simp [written])
    obtain ⟨u, run, _⟩ := holds.run_read text.texts direct registry fuel
    rw [written] at run
    have own := (List.of_mem_zip member).2
    have spelled : part.Means value := List.forall₂_zip means own
    exact ⟨_, u, run, spelled.literalText? (valid part (List.of_mem_zip own).1)⟩
  · intro chosen subset several
    have kept : Literals _ chosen := fun entry member =>
      read.literals literals entry (subset member)
    obtain ⟨argument, quoted, u, combined, keeps, argumentFrom, quotedFrom⟩ :=
      run_combine_fields registry fuel kept several
    refine ⟨_, _, combined, fun later reads => ?_⟩
    have combines := ((keeps.literals kept).combines_push argumentFrom quotedFrom).afterAll registry
      enough reads
    obtain ⟨v, run, _⟩ := combines.run_read registry (rfl : Form.value.isUnquoted)
      (Nat.le_trans (by decide) enough) (List.forall_mem_nil _)
    exact ⟨_, v, run, literalText?_joined _⟩

/-- The parts of `0'1'`. -/
def zeroAndOne : List LiteralPart := [.node (.leaf .number "0"), .node (.leaf .rawString "'1'")]

/-- A zero and a one that are joined make no literal, though each of them is one. -/
theorem value_literals_zero_one :
    List.Forall₂ LiteralPart.Means zeroAndOne ["0", "1"] ∧
    (∀ part ∈ zeroAndOne, Utf8.isValid part.source) ∧
    ∃ ids t id u shown v,
      Compile.run .empty (zeroAndOne.mapM (LiteralPart.make (.ofFuel .standard 14) .none)) =
      (.ok ids, t) ∧
      Compile.run t (combine (.ofFuel .standard 14) ids) = (.ok id, u) ∧
      Compile.run u ((Compiler.ofFuel .standard 14).read id .value) = (.ok (some shown), v) ∧
      Js.literalText? shown = none := by
  have means : List.Forall₂ LiteralPart.Means zeroAndOne ["0", "1"] :=
    .cons (.node (.number rfl (by decide))) (.cons (.node (.rawString rfl rfl)) .nil)
  have valid : ∀ part ∈ zeroAndOne, Utf8.isValid part.source := by decide
  obtain ⟨⟨ids, t, made, length, joins⟩, padded, _⟩ :=
    value_literals .standard (by decide : 14 ≤ 14) .none .empty means valid
  have two : ids.length = 2 := length
  have names : (ids.zip (["0", "1"] : List Text)).map Prod.fst = ids := List.map_fst_zip two.le
  have texts : (ids.zip (["0", "1"] : List Text)).map Prod.snd = ["0", "1"] :=
    List.map_snd_zip two.ge
  obtain ⟨id, u, combined, reads⟩ :=
    (joins [] (by simp)).2 _ (List.Subset.refl _) (by simp [two])
  obtain ⟨shown, v, read, value⟩ := reads [] (by simp)
  rw [names] at combined
  rw [texts, if_pos (by decide), padded _ (by decide)] at value
  exact ⟨means, valid, ids, t, id, u, shown, v, made, combined, read, value⟩

end Arguments

end ShellToDeno
