import ShellToDeno.Js.Template
import ShellToDeno.Shell.Quoting

/-!
# Template literals read back

`Js.templateValue` is the text that a template literal stands for, or the reason why what stands
between its backticks is not just text. Escaped text is read back as it was
(`templateValue_innards_append`). The escape of a dollar sign depends on the byte after it, so texts
that were escaped one by one may be joined unless one of them ends in a dollar sign and the next
byte is a brace; there a substitution begins (`templateValue_flatten`).
-/
namespace ShellToDeno.Js

/-- Why a text between backticks is not the text of one template without substitutions. -/
inductive TemplateFault where
  | substitution
  | closed
  | escape
  deriving DecidableEq, Repr

/-- The character that a given number of hexadecimal digits stand for. Half of a surrogate pair is
no character. -/
def hexCharacter? (count : Nat) (t : Text) : Option Text :=
  let digits := t.take count
  let code := Shell.digitsValue 16 digits
  if digits.length == count && digits.all (Shell.isBaseDigit 16) && code.isValidChar then
    some (Utf8.ofCode code)
  else none

/-- A character by its code, after the letter that announces it. -/
def unicodeEscape? : Text → Option (Text × Nat)
  | Ascii.openBrace :: rest =>
    let digits := rest.takeWhile (Shell.isBaseDigit 16)
    if rest[digits.length]? == some Ascii.closeBrace && !digits.isEmpty then
      (hexCharacter? digits.length rest).map (·, digits.length + 3)
    else none
  | t => (hexCharacter? 4 t).map (·, 5)

/-- What a backslash before this text stands for in a template, and how many bytes of the text
belong to it. A line that ends in a backslash goes on with the next one. -/
def templateEscape? : Text → Option (Text × Nat)
  | [] => none
  | b :: rest =>
    match Char.ofNat b.toNat with
    | 'b' => some ([0x08], 1)
    | 't' => some ([0x09], 1)
    | 'n' => some ([0x0A], 1)
    | 'v' => some ([0x0B], 1)
    | 'f' => some ([0x0C], 1)
    | 'r' => some ([0x0D], 1)
    | 'x' => (hexCharacter? 2 rest).map (·, 3)
    | 'u' => unicodeEscape? rest
    | '0' => if (rest.head?.map Text.isDigit).getD false then none else some ([0], 1)
    | '\n' => some ([], 1)
    | '\r' => some ([], if rest.head? == some Ascii.newline then 2 else 1)
    | _ =>
      if Text.isDigit b then none
      else if b == 0xE2 && (rest.take 2 == [0x80, 0xA8] || rest.take 2 == [0x80, 0xA9]) then
        some ([], 3)
      else some ([b], 1)

/-- Walks the inside of a template while `skip` bytes of an escape are still to be passed. A
carriage return that is not escaped is read as a newline, alone or before one. -/
def templateFrom : Nat → Text → Except TemplateFault Text
  | _, [] => .ok []
  | skip + 1, _ :: rest => templateFrom skip rest
  | 0, b :: rest =>
    if b == Ascii.backtick then .error .closed
    else if b == Ascii.dollar && rest.head? == some Ascii.openBrace then .error .substitution
    else if b == Ascii.backslash then
      match templateEscape? rest with
      | none => .error .escape
      | some (value, width) => (templateFrom width rest).map (value ++ ·)
    else if b == '\r' then
      (templateFrom (if rest.head? == some Ascii.newline then 1 else 0) rest).map
        (Ascii.newline :: ·)
    else (templateFrom 0 rest).map (b :: ·)

/-- The text of a template literal with the given inside. -/
def templateValue (t : Text) : Except TemplateFault Text := templateFrom 0 t

example : templateValue "a\\`b\\x41\\\nc" = .ok "a`bAc" := by rfl

example : templateValue "cost: $5, $\x7bx\x7d" = .error .substitution := by rfl

/-- A piece of a template that stands for a text whatever follows it. -/
def Shows (piece value : Text) : Prop :=
  ∀ rest, templateValue (piece ++ rest) = (templateValue rest).map (value ++ ·)

theorem map_append_map (value s : Text) (x : Except TemplateFault Text) :
    (x.map (s ++ ·)).map (value ++ ·) = x.map (value ++ s ++ ·) := by
  cases x <;> simp [Except.map]

theorem Shows.append {piece value other s : Text} (first : Shows piece value)
    (second : Shows other s) : Shows (piece ++ other) (value ++ s) := by
  intro rest
  rw [List.append_assoc, first, second, map_append_map]

theorem Shows.templateValue {piece value : Text} (shows : Shows piece value) :
    templateValue piece = .ok value := by
  simpa [Js.templateValue, templateFrom, Except.map] using shows []

theorem Shows.nil : Shows [] [] := by
  intro rest
  cases h : Js.templateValue rest <;> simp [h, Except.map]

theorem templateFrom_append (passed rest : Text) :
    templateFrom passed.length (passed ++ rest) = templateValue rest := by
  induction passed with
  | nil => rfl
  | cons b passed ih => exact ih

/-- An escape shows its value if the way it is read does not depend on what follows it. -/
theorem Shows.escape {passed value : Text}
    (escape : ∀ rest, templateEscape? (passed ++ rest) = some (value, passed.length)) :
    Shows (Ascii.backslash :: passed) value := by
  intro rest
  rw [← templateFrom_append passed rest]
  simp +decide [Js.templateValue, templateFrom, escape]

/-- Bytes that stand for themselves in a template, whatever follows. -/
def isTemplatePlain (b : UInt8) : Bool :=
  b != Ascii.backtick && b != Ascii.dollar && b != Ascii.backslash && b != '\r'

theorem Shows.plain {b : UInt8} (plain : isTemplatePlain b) : Shows [b] [b] := by
  intro rest
  simp only [isTemplatePlain, Bool.and_eq_true, bne_iff_ne] at plain
  obtain ⟨⟨⟨backtick, dollar⟩, backslash⟩, carriageReturn⟩ := plain
  simp [Js.templateValue, templateFrom, backtick, dollar, backslash, carriageReturn]

theorem Shows.plainText {s : Text} (plain : ∀ b ∈ s, isTemplatePlain b) : Shows s s := by
  induction s with
  | nil => exact .nil
  | cons b s ih =>
    have first : Shows [b] [b] := .plain (plain b (by simp))
    have others : Shows s s := ih fun c inside => plain c (by simp [inside])
    exact first.append others

theorem templateValue_dollar {rest : Text} (next : rest.head? ≠ some Ascii.openBrace) :
    templateValue (Ascii.dollar :: rest) = (templateValue rest).map (Ascii.dollar :: ·) := by
  simp +decide [templateValue, templateFrom, next]

theorem templateValue_substitution {rest : Text} (next : rest.head? = some Ascii.openBrace) :
    templateValue (Ascii.dollar :: rest) = .error .substitution := by
  simp +decide [templateValue, templateFrom, next]

/-! What `templateByte` and `templateInnards` write. -/

theorem hexCharacter?_hexByte (n : Fin 32) (rest : Text) :
    hexCharacter? 2 (hexByte n ++ rest) = some [UInt8.ofNat n] := by
  have alone : ∀ n : Fin 32, hexCharacter? 2 (hexByte n) = some [UInt8.ofNat n] := by
    decide +kernel
  exact alone n

/-- A control character is written by its code and read back from it. -/
theorem templateEscape?_hexByte {b : UInt8} (control : b < 0x20) (rest : Text) :
    templateEscape? ("x" ++ hexByte b.toNat ++ rest) = some ([b], 3) := by
  have small : b.toNat < 32 := control
  have digits := hexCharacter?_hexByte ⟨b.toNat, small⟩ rest
  rw [UInt8.ofNat_toNat] at digits
  exact congrArg (Option.map (·, 3)) digits

theorem Shows.templateByte {b : UInt8} (backtick : b ≠ Ascii.backtick) (dollar : b ≠ Ascii.dollar)
    (backslash : b ≠ Ascii.backslash) : Shows (templateByte b) [b] := by
  unfold Js.templateByte
  split
  · next carriageReturn =>
    rw [eq_of_beq carriageReturn]
    exact .escape fun _ => rfl
  · next other =>
    split
    · next control =>
      have control : b < 0x20 := by simp_all
      exact .escape (templateEscape?_hexByte control)
    · exact .plain (by simp_all [isTemplatePlain])

/-- The only byte that is written with a brace in front is the brace itself. -/
theorem head?_templateByte_append {b : UInt8} {rest : Text}
    (brace : (templateByte b ++ rest).head? = some Ascii.openBrace) : b = Ascii.openBrace := by
  unfold templateByte at brace
  split at brace
  · exact absurd (Option.some.inj brace) (by decide)
  · split at brace
    · exact absurd (Option.some.inj brace) (by decide)
    · exact Option.some.inj brace

theorem head?_templateInnards_append (s rest : Text) :
    (templateInnards s ++ rest).head? = some Ascii.openBrace ↔
      (s ++ rest).head? = some Ascii.openBrace := by
  fun_cases templateInnards s with
  | case1 => rfl
  | case2 | case3 | case4 => simp +decide
  | case5 b s backslash backtick substitution =>
    rw [List.append_assoc]
    constructor
    · intro brace
      rw [head?_templateByte_append brace]
      rfl
    · intro brace
      rw [Option.some.inj brace]
      rfl

/-- Two texts of which the first ends and the second goes on with the opening of a substitution. -/
def Meet (before after : Text) : Prop :=
  before.getLast? = some Ascii.dollar ∧ after.head? = some Ascii.openBrace

instance (before after : Text) : Decidable (Meet before after) :=
  inferInstanceAs (Decidable (_ ∧ _))

theorem Meet.cons {s rest : Text} (b : UInt8) (meet : Meet s rest) : Meet (b :: s) rest := by
  obtain ⟨last, next⟩ := meet
  refine ⟨?_, next⟩
  cases s with
  | nil => simp at last
  | cons c s => exact last

theorem newline_not_mem_templateByte {b : UInt8} (other : b ≠ Ascii.newline) :
    Ascii.newline ∉ templateByte b := by
  unfold templateByte
  split
  · decide
  · split
    · next control =>
      have control : b < 0x20 := by simp_all
      have coded : ∀ n : Fin 32, Ascii.newline ∉ "\\x" ++ hexByte n := by decide +kernel
      exact coded ⟨b.toNat, control⟩
    · simpa using other.symm

/-- A way to write the newlines of escaped text, with all else left as it is. -/
structure SpellsNewlines (spell : Text → Text) : Prop where
  append : ∀ s t, spell (s ++ t) = spell s ++ spell t
  kept : ∀ {t}, Ascii.newline ∉ t → spell t = t
  newline : Shows (spell [Ascii.newline]) [Ascii.newline]
  head : ∀ t rest, (spell t ++ rest).head? = some Ascii.openBrace ↔
    (t ++ rest).head? = some Ascii.openBrace

theorem SpellsNewlines.templateByte {spell : Text → Text} (spells : SpellsNewlines spell)
    {b : UInt8}
    (backtick : b ≠ Ascii.backtick) (dollar : b ≠ Ascii.dollar) (backslash : b ≠ Ascii.backslash) :
    Shows (spell (templateByte b)) [b] := by
  by_cases newline : b = Ascii.newline
  · subst newline
    exact spells.newline
  · rw [spells.kept (newline_not_mem_templateByte newline)]
    exact .templateByte backtick dollar backslash

/-- Escaped text is read back as it was, however its newlines are written, unless what follows
completes a dollar sign at its end. -/
theorem templateValue_spelled_append {spell : Text → Text} (spells : SpellsNewlines spell)
    {s rest : Text} (apart : ¬Meet s rest) :
    templateValue (spell (templateInnards s) ++ rest) = (templateValue rest).map (s ++ ·) := by
  have piece {written : Text} (plain : Ascii.newline ∉ written) (s : Text) :
      spell (written ++ s) ++ rest = written ++ (spell s ++ rest) := by
    rw [spells.append, spells.kept plain, List.append_assoc]
  fun_induction templateInnards s with
  | case1 =>
    rw [spells.kept List.not_mem_nil]
    exact Shows.nil rest
  | case2 s ih =>
    have written : Shows "\\\\" [Ascii.backslash] := .escape fun _ => rfl
    rw [piece (by decide), written, ih (mt (Meet.cons _) apart), map_append_map]
    rfl
  | case3 s ih =>
    have written : Shows "\\`" [Ascii.backtick] := .escape fun _ => rfl
    rw [piece (by decide), written, ih (mt (Meet.cons _) apart), map_append_map]
    rfl
  | case4 s ih =>
    have dollar : Shows "\\$" [Ascii.dollar] := .escape fun _ => rfl
    have written : Shows "\\$\x7b" [Ascii.dollar, Ascii.openBrace] := dollar.append (.plain rfl)
    rw [piece (by decide), written, ih (mt (fun meet => (meet.cons _).cons _) apart),
      map_append_map]
    rfl
  | case5 b s backslash backtick substitution ih =>
    have read := ih (mt (Meet.cons _) apart)
    by_cases dollar : b = Ascii.dollar
    · subst dollar
      have next : (spell (templateInnards s) ++ rest).head? ≠ some Ascii.openBrace := by
        rw [ne_eq, spells.head, head?_templateInnards_append]
        intro brace
        cases s with
        | nil => exact apart ⟨rfl, brace⟩
        | cons c s => exact substitution s rfl (congrArg (· :: s) (Option.some.inj brace))
      rw [piece (by decide)]
      refine (templateValue_dollar next).trans ?_
      rw [read]
      exact map_append_map [Ascii.dollar] s _
    · rw [spells.append, List.append_assoc, spells.templateByte backtick dollar backslash, read,
        map_append_map]
      rfl

theorem templateValue_innards_append {s rest : Text} (apart : ¬Meet s rest) :
    templateValue (templateInnards s ++ rest) = (templateValue rest).map (s ++ ·) :=
  have same : SpellsNewlines id := ⟨fun _ _ => rfl, fun _ => rfl, .plain rfl, fun _ _ => Iff.rfl⟩
  templateValue_spelled_append same apart

theorem templateValue_templateInnards (s : Text) : templateValue (templateInnards s) = .ok s := by
  have apart : ¬Meet s [] := by
    rintro ⟨_, brace⟩
    cases brace
  have read := templateValue_innards_append apart
  simpa [templateValue, templateFrom, Except.map] using read

/-- Joined texts of which one meets the texts after it. -/
def MeetsLater : List Text → Prop
  | [] => False
  | s :: later => Meet s later.flatten ∨ MeetsLater later

instance decidableMeetsLater : (texts : List Text) → Decidable (MeetsLater texts)
  | [] => inferInstanceAs (Decidable False)
  | _ :: later =>
    have := decidableMeetsLater later
    inferInstanceAs (Decidable (_ ∨ _))

theorem templateInnards_append {s t : Text} (apart : ¬Meet s t) :
    templateInnards (s ++ t) = templateInnards s ++ templateInnards t := by
  fun_induction templateInnards s with
  | case1 => rfl
  | case2 s ih =>
    rw [List.append_assoc, ← ih (mt (Meet.cons _) apart)]
    rfl
  | case3 s ih =>
    rw [List.append_assoc, ← ih (mt (Meet.cons _) apart)]
    rfl
  | case4 s ih =>
    rw [List.append_assoc, ← ih (mt (fun meet => (meet.cons _).cons _) apart)]
    rfl
  | case5 b s backslash backtick substitution ih =>
    rw [List.append_assoc, ← ih (mt (Meet.cons _) apart)]
    refine templateInnards.eq_5 b (s ++ t) backslash backtick ?_
    intro rest dollar brace
    subst dollar
    cases s with
    | nil => exact apart ⟨rfl, congrArg List.head? brace⟩
    | cons c s => exact substitution s rfl (congrArg (· :: s) (List.cons.inj brace).1)

theorem head?_flatten_templateInnards (texts : List Text) :
    (texts.map templateInnards).flatten.head? = some Ascii.openBrace ↔
      texts.flatten.head? = some Ascii.openBrace := by
  induction texts with
  | nil => rfl
  | cons s later ih =>
    rw [List.map_cons, List.flatten_cons, head?_templateInnards_append, List.flatten_cons]
    cases s with
    | nil => exact ih
    | cons b s => rfl

/-- Texts of which none meets the texts after it can be joined before they are escaped. -/
theorem flatten_templateInnards {texts : List Text} (apart : ¬MeetsLater texts) :
    (texts.map templateInnards).flatten = templateInnards texts.flatten := by
  induction texts with
  | nil => rfl
  | cons s later ih =>
    obtain ⟨first, rest⟩ := not_or.1 apart
    rw [List.map_cons, List.flatten_cons, List.flatten_cons, templateInnards_append first, ih rest]

/-- A text that ends in a dollar sign is cut short by a brace after it. -/
theorem templateValue_innards_meet {s rest : Text} (meet : Meet s rest) :
    templateValue (templateInnards s ++ rest) = .error .substitution := by
  obtain ⟨last, next⟩ := meet
  obtain ⟨before, rfl⟩ := List.getLast?_eq_some_iff.1 last
  have alone (t : Text) : ¬Meet before (Ascii.dollar :: t) :=
    fun meet => absurd meet.2 (by simp +decide)
  rw [templateInnards_append (alone []), List.append_assoc]
  refine (templateValue_innards_append (alone rest)).trans ?_
  rw [templateValue_substitution next]
  rfl

/-- Texts that were escaped one by one and then joined stand for the joined texts, unless a
substitution begins where two of them meet. -/
theorem templateValue_flatten (texts : List Text) :
    templateValue (texts.map templateInnards).flatten =
      if MeetsLater texts then .error .substitution else .ok texts.flatten := by
  induction texts with
  | nil => rfl
  | cons s later ih =>
    have same : Meet s (later.map templateInnards).flatten ↔ Meet s later.flatten :=
      and_congr_right fun _ => head?_flatten_templateInnards later
    rw [List.map_cons, List.flatten_cons]
    by_cases meet : Meet s later.flatten
    · rw [templateValue_innards_meet (same.2 meet), if_pos (.inl meet)]
    · rw [templateValue_innards_append (mt same.1 meet), ih]
      by_cases further : MeetsLater later
      · simp [further, MeetsLater, Except.map]
      · simp [further, meet, MeetsLater, Except.map]

end ShellToDeno.Js
