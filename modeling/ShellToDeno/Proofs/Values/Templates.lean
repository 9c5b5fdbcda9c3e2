import ShellToDeno.Proofs.Quoting.Words

/-!
# Template literals in a program

`Js.cutTemplate?` finds the end of a template literal: the first backtick that is not escaped. It
does not look at what escapes stand for, and `Js.templateValue` does not look for an end. The two
agree: what has a value as the inside of a template is cut out whole (`cutTemplate?_of_value`), and
where reading comes upon a substitution there is no end to be found
(`cutTemplate?_of_substitution`). Escaped text is closed in this sense, and it is read back as it
was (`templateInnards_closed_lossless`).
-/
namespace ShellToDeno.Js

/-- Cuts a text at the backtick that ends the template it begins in. A backslash takes the next byte
along. There is no end if a substitution begins first. -/
def cutTemplate? : Text → Option (Text × Text)
  | [] => none
  | Ascii.backtick :: rest => some ([], rest)
  | Ascii.dollar :: Ascii.openBrace :: _ => none
  | Ascii.backslash :: b :: rest =>
    (cutTemplate? rest).map fun cut => (Ascii.backslash :: b :: cut.1, cut.2)
  | b :: rest => (cutTemplate? rest).map fun cut => (b :: cut.1, cut.2)

example : cutTemplate? "a\\`b`.length" = some (("a\\`b" : Text), (".length" : Text)) := by rfl

/-- Bytes that a template literal passes over, whatever stands around them. -/
def isTemplateQuiet (b : UInt8) : Bool :=
  b != Ascii.backtick && b != Ascii.dollar && b != Ascii.backslash

theorem cutTemplate?_quiet {b : UInt8} (quiet : isTemplateQuiet b) (rest : Text) :
    cutTemplate? (b :: rest) = (cutTemplate? rest).map fun cut => (b :: cut.1, cut.2) := by
  simp only [isTemplateQuiet, Bool.and_eq_true, bne_iff_ne] at quiet
  obtain ⟨⟨backtick, dollar⟩, backslash⟩ := quiet
  exact cutTemplate?.eq_5 b rest backtick (fun _ same => absurd same dollar)
    fun _ _ same => absurd same backslash

theorem cutTemplate?_dollar {rest : Text} (next : rest.head? ≠ some Ascii.openBrace) :
    cutTemplate? (Ascii.dollar :: rest) =
      (cutTemplate? rest).map fun cut => (Ascii.dollar :: cut.1, cut.2) := by
  apply cutTemplate?.eq_5
  · decide
  · rintro after _ rfl
    exact next rfl
  · rintro _ _ same
    exact absurd same (by decide)

/-- Where a text leads that has the given value, or fault, as the inside of a template. -/
def CutsAs (t : Text) : Except TemplateFault Text → Prop
  | .ok _ => ∀ rest, cutTemplate? (t ++ Ascii.backtick :: rest) = some (t, rest)
  | .error .substitution => ∀ rest, cutTemplate? (t ++ rest) = none
  | .error _ => True

@[simp] theorem cutsAs_map {t : Text} {outcome : Except TemplateFault Text} (f : Text → Text) :
    CutsAs t (outcome.map f) ↔ CutsAs t outcome := by
  cases outcome <;> rfl

/-- What is passed over before a text does not change where the text leads. The byte after it may
matter only to a text that is empty. -/
theorem CutsAs.append (front : Text) {t : Text} {outcome : Except TemplateFault Text}
    (cuts : CutsAs t outcome)
    (passed : ∀ rest, (t = [] → rest.head? = some Ascii.backtick) →
      cutTemplate? (front ++ (t ++ rest)) =
        (cutTemplate? (t ++ rest)).map fun cut => (front ++ cut.1, cut.2)) :
    CutsAs (front ++ t) outcome := by
  cases outcome with
  | ok value =>
    intro rest
    rw [List.append_assoc, passed _ fun _ => rfl, cuts rest]
    rfl
  | error fault =>
    cases fault with
    | substitution =>
      intro rest
      have some : t ≠ [] := by
        rintro rfl
        cases cuts [Ascii.backtick]
      rw [List.append_assoc, passed rest fun empty => absurd empty some, cuts rest]
      rfl
    | closed | escape => trivial

theorem isTemplateQuiet_of_isBaseDigit : ∀ b : UInt8, Shell.isBaseDigit 16 b →
    isTemplateQuiet b := by
  decide +kernel

theorem quiet_of_hexCharacter? {count : Nat} {t value : Text}
    (found : hexCharacter? count t = some value) : ∀ b ∈ t.take count, isTemplateQuiet b := by
  simp only [hexCharacter?, Option.ite_none_right_eq_some, Bool.and_eq_true,
    List.all_eq_true] at found
  intro b inside
  exact isTemplateQuiet_of_isBaseDigit b (found.1.1.2 b inside)

theorem quiet_of_unicodeEscape? {t value : Text} {width : Nat}
    (found : unicodeEscape? t = some (value, width)) :
    ∃ count, width = count + 1 ∧ ∀ b ∈ t.take count, isTemplateQuiet b := by
  unfold unicodeEscape? at found
  split at found
  · next rest =>
    simp only [Option.ite_none_right_eq_some, Bool.and_eq_true, beq_iff_eq] at found
    obtain ⟨⟨closing, _⟩, found⟩ := found
    obtain ⟨_, digits, same⟩ := Option.map_eq_some_iff.1 found
    obtain ⟨rfl, rfl⟩ := Prod.mk.inj same
    refine ⟨(rest.takeWhile (Shell.isBaseDigit 16)).length + 2, rfl, fun b inside => ?_⟩
    rw [List.take_succ_cons, List.take_add_one, closing] at inside
    simp only [Option.toList_some, List.mem_cons, List.mem_append, List.not_mem_nil,
      or_false] at inside
    rcases inside with rfl | inside | rfl
    · rfl
    · exact quiet_of_hexCharacter? digits b inside
    · rfl
  · obtain ⟨_, digits, same⟩ := Option.map_eq_some_iff.1 found
    obtain ⟨rfl, rfl⟩ := Prod.mk.inj same
    exact ⟨4, rfl, quiet_of_hexCharacter? digits⟩

/-- A newline may belong to what stands before it. -/
theorem quiet_of_newline (rest : Text) :
    ∀ b ∈ rest.take (if rest.head? == some Ascii.newline then 1 else 0), isTemplateQuiet b := by
  intro b inside
  split at inside
  · next newline =>
    obtain ⟨after, rfl⟩ := List.head?_eq_some_iff.1 (eq_of_beq newline)
    rw [List.mem_singleton.1 inside]
    rfl
  · cases inside

/-- An escape takes any byte after the backslash, and then quiet ones only. -/
theorem quiet_of_templateEscape? {b : UInt8} {rest value : Text} {width : Nat}
    (found : templateEscape? (b :: rest) = some (value, width)) :
    ∃ count, width = count + 1 ∧ ∀ c ∈ rest.take count, isTemplateQuiet c := by
  have single {v : Text} (same : some (v, 1) = some (value, width)) :
      ∃ count, width = count + 1 ∧ ∀ c ∈ rest.take count, isTemplateQuiet c := by
    obtain ⟨_, rfl⟩ := Prod.mk.inj (Option.some.inj same)
    exact ⟨0, rfl, by simp⟩
  rw [templateEscape?] at found
  split at found
  case h_7 =>
    obtain ⟨_, digits, same⟩ := Option.map_eq_some_iff.1 found
    obtain ⟨_, rfl⟩ := Prod.mk.inj same
    exact ⟨2, rfl, quiet_of_hexCharacter? digits⟩
  case h_8 => exact quiet_of_unicodeEscape? found
  case h_9 =>
    split at found
    · cases found
    · exact single found
  case h_11 =>
    obtain ⟨_, rfl⟩ := Prod.mk.inj (Option.some.inj found)
    refine ⟨_, ?_, quiet_of_newline rest⟩
    split <;> rfl
  case h_12 =>
    split at found
    · cases found
    · split at found
      · next separator =>
        obtain ⟨_, rfl⟩ := Prod.mk.inj (Option.some.inj found)
        simp only [Bool.and_eq_true, Bool.or_eq_true, beq_iff_eq] at separator
        refine ⟨2, rfl, fun c inside => ?_⟩
        rcases separator.2 with same | same
        all_goals
          simp only [same, List.mem_cons, List.not_mem_nil, or_false] at inside
          rcases inside with rfl | rfl <;> rfl
      · exact single found
  all_goals exact single found

/-- The end of a template is looked for where its reading goes on. -/
theorem cutsAs_templateFrom (skip : Nat) (t : Text) (quiet : ∀ b ∈ t.take skip, isTemplateQuiet b) :
    CutsAs t (templateFrom skip t) := by
  induction length : t.length using Nat.strongRecOn generalizing skip t with
  | ind size ih =>
  cases t with
  | nil =>
    intro rest
    rfl
  | cons b rest =>
    have less : rest.length < size := by
      rw [← length]
      exact Nat.lt_succ_self _
    cases skip with
    | succ skip =>
      rw [List.take_succ_cons, List.forall_mem_cons] at quiet
      exact (ih _ less skip rest quiet.2 rfl).append [b] fun _ _ => cutTemplate?_quiet quiet.1 _
    | zero =>
      by_cases backtick : b = Ascii.backtick
      · simp [templateFrom, backtick, CutsAs]
      by_cases substitution : b = Ascii.dollar ∧ rest.head? = some Ascii.openBrace
      · obtain ⟨rfl, brace⟩ := substitution
        obtain ⟨after, rfl⟩ := List.head?_eq_some_iff.1 brace
        intro more
        rfl
      by_cases backslash : b = Ascii.backslash
      · subst backslash
        cases rest with
        | nil => trivial
        | cons c rest =>
          cases escape : templateEscape? (c :: rest) with
          | none => simp +decide [templateFrom, escape, CutsAs]
          | some found =>
            obtain ⟨value, width⟩ := found
            obtain ⟨count, rfl, quiet⟩ := quiet_of_templateEscape? escape
            have shorter : rest.length < size := Nat.lt_of_succ_lt less
            have later := (ih _ shorter count rest quiet rfl).append [Ascii.backslash, c]
              fun _ _ => rfl
            simpa +decide [templateFrom, escape] using later
      have alone (outcome : Except TemplateFault Text) (later : CutsAs rest outcome) :
          CutsAs (b :: rest) outcome := by
        apply later.append [b]
        intro after closed
        by_cases dollar : b = Ascii.dollar
        · subst dollar
          apply cutTemplate?_dollar
          cases rest with
          | nil => simp +decide [closed rfl]
          | cons c rest => exact fun brace => substitution ⟨rfl, brace⟩
        · exact cutTemplate?_quiet (by simp [isTemplateQuiet, backtick, dollar, backslash]) _
      rw [templateFrom, if_neg (by simpa using backtick), if_neg (by simpa using substitution),
        if_neg (by simpa using backslash)]
      split
      · exact alone _ ((cutsAs_map _).2 (ih _ less _ rest (quiet_of_newline rest) rfl))
      · exact alone _ ((cutsAs_map _).2 (ih _ less 0 rest (by simp) rfl))

theorem cutTemplate?_of_value {t value : Text} (read : templateValue t = .ok value) (rest : Text) :
    cutTemplate? (t ++ Ascii.backtick :: rest) = some (t, rest) := by
  have cuts := cutsAs_templateFrom 0 t (by simp)
  rw [← templateValue, read] at cuts
  exact cuts rest

theorem cutTemplate?_of_substitution {t : Text} (read : templateValue t = .error .substitution)
    (rest : Text) : cutTemplate? (t ++ rest) = none := by
  have cuts := cutsAs_templateFrom 0 t (by simp)
  rw [← templateValue, read] at cuts
  exact cuts rest

/-- Any text can be written between backticks so that the template ends at the second one, whatever
follows, holds no substitution, and stands for the text. -/
theorem templateInnards_closed_lossless (s rest : Text) :
    cutTemplate? (templateInnards s ++ Ascii.backtick :: rest) = some (templateInnards s, rest) ∧
      templateValue (templateInnards s) = .ok s := by
  have lossless := templateValue_templateInnards s
  exact ⟨cutTemplate?_of_value lossless rest, lossless⟩

end ShellToDeno.Js
