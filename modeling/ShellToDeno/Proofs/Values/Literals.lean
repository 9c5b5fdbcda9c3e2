import ShellToDeno.Proofs.Quoting.Joined
import ShellToDeno.Proofs.Values.Numbers
import ShellToDeno.Proofs.Values.Strings
import ShellToDeno.Proofs.Values.Templates

/-!
# Literals and what they are converted to

`Js.readLiteral?` reads a string, a template without substitutions or a number at the start of a
program text, and `Js.literalText?` converts a text that is one literal to a string. Text that the
script spells out is written as one of these. Strings and templates are converted to the value they
were written for, and numbers to the text of the number they are (`LiteralPart.Means.literalText?`).
-/
namespace ShellToDeno

namespace Js

/-- The values of literals. -/
inductive Value where
  | string (text : Text)
  | number (value : Double)

/-- The conversion to a string. -/
def Value.text? : Value → Option Text
  | string text => some text
  | number value => value.text?

/-- Reads a literal at the start of a text. -/
def readLiteral? : Text → Option (Value × Text)
  | Ascii.doubleQuote :: rest => (stringFrom 0 rest).map fun read => (.string read.1, read.2)
  | Ascii.backtick :: rest =>
    (cutTemplate? rest).bind fun cut =>
      match templateValue cut.1 with
      | .ok value => some (.string value, cut.2)
      | .error _ => none
  | t => (readNumber? t).map fun read => (.number read.1, read.2)

/-- The string that a text is converted to which is one literal. -/
def literalText? (t : Text) : Option Text :=
  match readLiteral? t with
  | some (value, []) => value.text?
  | _ => none

theorem readLiteral?_stringLiteral (t rest : Text) :
    readLiteral? (stringLiteral t ++ rest) = some (.string (Utf8.repair t), rest) := by
  have read := readString?_stringLiteral t rest
  rw [stringLiteral, List.append_assoc, List.append_assoc] at read ⊢
  change stringFrom 0 _ = _ at read
  change (stringFrom 0 _).map _ = _
  rw [read]
  rfl

theorem readLiteral?_template {innards value : Text} (read : templateValue innards = .ok value)
    (rest : Text) : readLiteral? (template innards ++ rest) = some (.string value, rest) := by
  rw [template, List.append_assoc, List.append_assoc]
  change (cutTemplate? (innards ++ Ascii.backtick :: rest)).bind _ = _
  rw [cutTemplate?_of_value read, Option.bind_some, read]

theorem readLiteral?_substitution {innards : Text}
    (read : templateValue innards = .error .substitution)
    (rest : Text) : readLiteral? (template innards ++ rest) = none := by
  rw [template, List.append_assoc, List.append_assoc]
  change (cutTemplate? (innards ++ Ascii.backtick :: rest)).bind _ = _
  rw [cutTemplate?_of_substitution read, Option.bind_none]

theorem readLiteral?_digit {b : UInt8} (digit : Text.isDigit b) (rest : Text) :
    readLiteral? (b :: rest) = (readNumber? (b :: rest)).map fun read =>
    (.number read.1, read.2) := by
  apply readLiteral?.eq_3
  · rintro _ ⟨⟩
    cases digit
  · rintro _ ⟨⟩
    cases digit

theorem literalText?_stringLiteral {t : Text} (valid : Utf8.isValid t) :
    literalText? (stringLiteral t) = some t := by
  have read := readLiteral?_stringLiteral t []
  rw [List.append_nil, Utf8.repair_of_isValid valid] at read
  simp only [literalText?, read, Value.text?]

/-- Escaped texts that are joined in a template: a substitution begins where two of them meet. -/
theorem literalText?_template (texts : List Text) :
    literalText? (template (texts.map templateInnards).flatten) =
      if MeetsLater texts then none else some texts.flatten := by
  have value := templateValue_flatten texts
  by_cases meets : MeetsLater texts
  · rw [if_pos meets] at value ⊢
    have read := readLiteral?_substitution value []
    rw [List.append_nil] at read
    rw [literalText?, read]
  · rw [if_neg meets] at value ⊢
    have read := readLiteral?_template value []
    rw [List.append_nil] at read
    simp only [literalText?, read, Value.text?]

theorem literalText?_digit {b : UInt8} (digit : Text.isDigit b) (rest : Text) :
    literalText? (b :: rest) = numeralText? (b :: rest) := by
  rw [literalText?, readLiteral?_digit digit, numeralText?]
  cases readNumber? (b :: rest) with
  | none => rfl
  | some read =>
    obtain ⟨value, rest⟩ := read
    cases rest <;> rfl

end Js

namespace Text

/-- Digits, or digits around a point. -/
def isNumeral (t : Text) : Bool :=
  match cut? "." t with
  | some (whole, part) => isDigits whole && isDigits part
  | none => isDigits t

theorem eq_of_cut? {piece t before after : Text} (cut : cut? piece t = some (before, after)) :
    t = before ++ piece ++ after := by
  induction t generalizing before with
  | nil =>
    simp only [cut?, Option.ite_none_right_eq_some, Option.some.injEq, Prod.mk.injEq,
      List.isEmpty_iff] at cut
    obtain ⟨rfl, rfl, rfl⟩ := cut
    rfl
  | cons b rest ih =>
    rw [cut?] at cut
    split at cut
    · next starts =>
      obtain ⟨rfl, rfl⟩ := Prod.mk.inj (Option.some.inj cut)
      obtain ⟨later, same⟩ := List.isPrefixOf_iff_prefix.1 starts
      rw [← same, List.drop_left]
      rfl
    · obtain ⟨⟨first, second⟩, found, same⟩ := Option.map_eq_some_iff.1 cut
      obtain ⟨rfl, rfl⟩ := Prod.mk.inj same
      rw [ih found]
      rfl

theorem exists_digit {digits : Text} (isDigits : digits.isDigits) :
    ∃ b rest, digits = b :: rest ∧ isDigit b := by
  simp only [Text.isDigits, Bool.and_eq_true, Bool.not_eq_true', List.isEmpty_eq_false_iff,
    List.all_eq_true] at isDigits
  obtain ⟨b, rest, rfl⟩ := List.exists_cons_of_ne_nil isDigits.1
  exact ⟨b, rest, rfl, isDigits.2 b (by simp)⟩

/-- A numeral begins with a digit, and nothing in it has to be escaped. -/
theorem digit_of_isNumeral {t : Text} (numeral : t.isNumeral) :
    (∃ b rest, t = b :: rest ∧ isDigit b) ∧ ∀ b ∈ t, Dax.isBareByte b := by
  rw [isNumeral] at numeral
  split at numeral
  · next whole part cut =>
    rw [Bool.and_eq_true] at numeral
    rw [eq_of_cut? cut, List.append_assoc]
    obtain ⟨b, rest, same, digit⟩ := exists_digit numeral.1
    refine ⟨⟨b, rest ++ ("." ++ part), by rw [same]; rfl, digit⟩, ?_⟩
    intro b inside
    rw [List.mem_append, List.mem_append] at inside
    rcases inside with inside | inside | inside
    · exact (bare_of_isDigits numeral.1).2 b inside
    · rw [List.mem_singleton.1 inside]
      decide
    · exact (bare_of_isDigits numeral.2).2 b inside
  · exact ⟨exists_digit numeral, (bare_of_isDigits numeral).2⟩

end Text

theorem quotedNumber?_template (innards : Text) :
    quotedNumber? (Js.template innards) = if innards.isNumeral then some innards else none := by
  have shape : Js.template innards = Ascii.backtick :: (innards ++ [Ascii.backtick]) := rfl
  rw [shape, quotedNumber?]
  simp +decide only [List.getLast?_concat, List.dropLast_concat]
  rfl

/-- A numeral has nothing in it that a template would read otherwise. -/
theorem templateValue_numeral {t : Text} (numeral : t.isNumeral) : Js.templateValue t = .ok t := by
  have value := Js.templateValue_templateInnards t
  rwa [Js.templateInnards_of_bare (Text.digit_of_isNumeral numeral).2] at value

/-- Joined texts that are a numeral are joined as they are. -/
theorem flatten_templateInnards_numeral {texts : List Text}
    (numeral : Text.isNumeral texts.flatten) :
    (texts.map Js.templateInnards).flatten = texts.flatten ∧ ¬Js.MeetsLater texts := by
  have same : texts.map Js.templateInnards = texts := by
    refine (List.map_congr_left fun t inside => ?_).trans (List.map_id texts)
    apply Js.templateInnards_of_bare
    intro b member
    exact (Text.digit_of_isNumeral numeral).2 b (List.mem_flatten.2 ⟨t, inside, member⟩)
  rw [same]
  refine ⟨rfl, fun meets => ?_⟩
  have value := Js.templateValue_flatten texts
  rw [same, if_pos meets, templateValue_numeral numeral] at value
  cases value

theorem isNumeral_flatten_templateInnards (texts : List Text) :
    Text.isNumeral (texts.map Js.templateInnards).flatten = Text.isNumeral texts.flatten := by
  rw [Bool.eq_iff_iff]
  constructor
  · intro numeral
    have value := Js.templateValue_flatten texts
    rw [templateValue_numeral numeral] at value
    split at value
    · cases value
    · rwa [← Except.ok.inj value]
  · intro numeral
    rwa [(flatten_templateInnards_numeral numeral).1]

/-- The value of a string in single quotes is valid where the string is. -/
theorem Node.Means.isValid {n : Node} {value : Text} (means : n.Means value)
    (quoted : n.kind = .rawString ∨ n.kind = .ansiString) (valid : Utf8.isValid n.text) :
    Utf8.isValid value := by
  have inside {body : Text}
      (valid : Utf8.isValid (Ascii.singleQuote :: (body ++ [Ascii.singleQuote]))) :
      Utf8.isValid body :=
    Utf8.isValid_of_append (by decide) ((Utf8.isValid_cons_iff (by decide)).1 valid)
  cases means with
  | word kind | number kind | stringContent kind => simp [kind] at quoted
  | rawString kind text =>
    rw [text] at valid
    exact inside valid
  | ansiString kind text =>
    rw [text] at valid
    exact Shell.isValid_ansiUnescape (inside ((Utf8.isValid_cons_iff (by decide)).1 valid))

namespace LiteralPart

/-- A part as it is written in the script. -/
def source : LiteralPart → Text
  | node n => n.text
  | text t => t

def isNumber : LiteralPart → Bool
  | node n => n.kind == .number
  | text _ => false

/-- What the value of a part is converted to. -/
theorem Means.literalText? {part : LiteralPart} {value : Text} (means : part.Means value)
    (valid : Utf8.isValid part.source) :
    Js.literalText? (part.valueForm value) =
      if part.isNumber then Js.numeralText? value else some value := by
  have template (text : Text) :
      Js.literalText? (Js.template (Js.templateInnards text)) = some text := by
    have alone := Js.literalText?_template [text]
    simpa [Js.MeetsLater, Js.Meet] using alone
  cases means with
  | text => exact template value
  | @node n _ means =>
    rw [valueForm, isNumber]
    cases means with
    | word kind home => simp [Node.valueForm, kind, template]
    | number kind digits =>
      obtain ⟨b, rest, same, digit⟩ := Text.exists_digit digits
      simp only [Node.valueForm, kind, beq_self_eq_true, if_true]
      rw [same]
      exact Js.literalText?_digit digit rest
    | rawString kind text =>
      have inside := (Node.Means.rawString kind text).isValid (.inl kind) valid
      simp [Node.valueForm, kind, Js.literalText?_stringLiteral inside]
    | ansiString kind text =>
      have inside := (Node.Means.ansiString kind text).isValid (.inr kind) valid
      simp [Node.valueForm, kind, Js.literalText?_stringLiteral inside]
    | stringContent kind => simp [Node.valueForm, kind, template]

end LiteralPart

end ShellToDeno
