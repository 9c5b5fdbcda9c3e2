import ShellToDeno.Proofs.Quoting.CommandLine
import ShellToDeno.Proofs.Tests.Meaning
import ShellToDeno.Proofs.Values.Fragments

/-!
# Tests of strings

`Js.truth?` evaluates a condition that compares two literals, or the length of one with a number,
from its text. An operand that the script spells out is written as a string literal or as a
template, and then a test of it means what it means in the shell: equal strings are equal, and a
length is zero only for the empty string. A number is written as a number instead, which has no
length and equals no string (`Compile.string_tests`).
-/
namespace ShellToDeno

namespace Js

/-- Strict equality. -/
def Value.same : Value → Value → Bool
  | string a, string b => a == b
  | number a, number b => a.equal b
  | _, _ => false

/-- The length of a text in UTF-16 units. -/
def units (t : Text) : Nat :=
  ((Utf8.pieces t).map fun
    | .char c => if c.toNat < 0x10000 then 1 else 2
    | .stray _ => 1).sum

/-- Reads a literal, or the length of one. A number has none. -/
def readTerm? (t : Text) : Option (Value × Text) :=
  (readLiteral? t).bind fun (value, rest) =>
    match Text.cutStart? ".length" rest, value with
    | none, _ => some (value, rest)
    | some after, .string s => some (.number (.finite (units s * Double.one : Nat)), after)
    | some _, .number _ => none

/-- The outcome of a comparison. Strings are compared for equality only. -/
def compare? (operator : Text) (l r : Value) : Option Bool :=
  if operator = "===" then some (l.same r)
  else if operator = "!==" then some (!l.same r)
  else match l, r with
    | .number a, .number b => Compile.compareNumbers operator a b
    | _, _ => none

/-- The truth of a text that compares two terms, none if it does not. -/
def truth? (t : Text) : Option Bool := do
  let (l, rest) ← readTerm? t
  let (operator, rest) ← (Text.cutStart? " " rest).bind (Text.cut? " ")
  let (r, rest) ← readTerm? rest
  if rest.isEmpty then compare? operator l r else none

example : truth? "5 === \"5\"" = some false := by decide +kernel

example : truth? "`a`.length > 0" = some true := by decide +kernel

theorem units_eq_zero_iff {t : Text} : units t = 0 ↔ t = [] := by
  constructor
  · intro none
    cases t with
    | nil => rfl
    | cons b rest =>
      rw [units, Utf8.pieces, Utf8.piecesFrom] at none
      split at none
      · rw [List.map_cons, List.sum_cons] at none
        dsimp only at none
        split at none <;> omega
      · rw [List.map_cons, List.sum_cons] at none
        dsimp only at none
        omega
  · rintro rfl
    rfl

end Js

theorem Text.cut?_blank {word : Text} (whole : (' ' : Char).toUInt8 ∉ word) (rest : Text) :
    cut? " " (word ++ (" " ++ rest)) = some (word, rest) := by
  induction word with
  | nil => rfl
  | cons b word ih =>
    obtain ⟨differ, whole⟩ := not_or.1 (mt List.mem_cons.2 whole)
    have other : (" " : Text).isPrefixOf (b :: (word ++ (" " ++ rest))) = false := by
      have blank : (" " : Text) = [(' ' : Char).toUInt8] := rfl
      rw [blank, List.isPrefixOf_cons_cons, beq_false_of_ne differ]
      rfl
    rw [List.cons_append, cut?, if_neg (by rw [other]; decide), ih whole]
    rfl

namespace Js

/-- A literal that is read whole where a blank or the end follows. -/
def Denotes (shown : Text) (value : Value) : Prop :=
  readLiteral? shown = some (value, []) ∧
    ∀ rest, readLiteral? (shown ++ (" " ++ rest)) = some (value, " " ++ rest)

/-- A literal with a string as its value, whatever follows it. -/
def IsString (shown value : Text) : Prop :=
  ∀ rest, readLiteral? (shown ++ rest) = some (.string value, rest)

variable {l r shown value : Text} {a b : Value}

theorem IsString.denotes (string : IsString shown value) : Denotes shown (.string value) := by
  refine ⟨?_, fun rest => string _⟩
  have whole := string []
  rwa [List.append_nil] at whole

theorem truth?_terms {operator : Text} (whole : (' ' : Char).toUInt8 ∉ operator)
    (left : ∀ rest, readTerm? (l ++ (" " ++ rest)) = some (a, " " ++ rest))
    (right : readTerm? r = some (b, [])) :
    truth? (l ++ " " ++ operator ++ " " ++ r) = compare? operator a b := by
  have operators (rest : Text) : Text.cutStart? " " (" " ++ rest) = some rest := rfl
  rw [truth?]
  simp only [List.append_assoc, left, operators, Option.bind_eq_bind, Option.bind_some,
    Text.cut?_blank whole, right, List.isEmpty_nil, if_true]

theorem Denotes.readTerm? (denotes : Denotes shown a) : Js.readTerm? shown = some (a, []) := by
  rw [Js.readTerm?, denotes.1]
  rfl

theorem Denotes.readTerm?_append (denotes : Denotes shown a) (rest : Text) :
    Js.readTerm? (shown ++ (" " ++ rest)) = some (a, " " ++ rest) := by
  rw [Js.readTerm?, denotes.2]
  rfl

theorem Denotes.truth? {operator : Text} (left : Denotes l a) (right : Denotes r b)
    (whole : (' ' : Char).toUInt8 ∉ operator) :
    Js.truth? (l ++ " " ++ operator ++ " " ++ r) = compare? operator a b :=
  truth?_terms whole left.readTerm?_append right.readTerm?

theorem readTerm?_zero : readTerm? "0" = some (.number (.finite 0), []) := rfl

/-- The tests whether a string is empty are right. -/
theorem IsString.truth?_notEmpty (string : IsString shown value) :
    truth? (Condition.notEmpty shown).holds = some (decide (value ≠ [])) ∧
      truth? (Condition.notEmpty shown).fails = some (decide (value = [])) := by
  have left (rest : Text) : readTerm? (shown ++ ".length" ++ (" " ++ rest)) =
      some (.number (.finite (units value * Double.one : Nat)), " " ++ rest) := by
    rw [readTerm?, List.append_assoc, string]
    simp [Text.cutStart?]
  have holds : (Condition.notEmpty shown).holds = shown ++ ".length" ++ " " ++ ">" ++
      " " ++ "0" := by
    have split : (".length > 0" : Text) = ".length" ++ (" " ++ (">" ++ (" " ++ "0"))) := rfl
    simp only [Condition.notEmpty, split, List.append_assoc]
  have fails : (Condition.notEmpty shown).fails = shown ++ ".length" ++ " " ++ "==" ++
      " " ++ "0" := by
    have split : (".length == 0" : Text) = ".length" ++ (" " ++ ("==" ++ (" " ++ "0"))) := rfl
    simp only [Condition.notEmpty, split, List.append_assoc]
  have zero : units value * Double.one = 0 ↔ value = [] := by
    rw [Nat.mul_eq_zero, units_eq_zero_iff, or_iff_left (Nat.ne_of_gt Double.one_pos)]
  rw [holds, fails, truth?_terms (by decide) left readTerm?_zero,
    truth?_terms (by decide) left readTerm?_zero]
  generalize units value * Double.one = steps at zero
  constructor
  · change some (decide ((0 : Int) < (steps : Nat))) = _
    rw [Option.some_inj, decide_eq_decide, ne_eq, ← zero]
    omega
  · change some ((steps : Int) == 0) = _
    rw [Option.some_inj, beq_eq_decide, decide_eq_decide, ← zero]
    omega

/-- A whole number is read where a blank or the end follows, unless it is padded. -/
theorem denotes_number {digits : Text} (isDigits : digits.isDigits)
    (plain : digits.isPadded = false) :
    Denotes digits (.number (numberOf digits [])) := by
  obtain ⟨b, others, same, digit⟩ := Text.exists_digit isDigits
  have literal (rest : Text) : readLiteral? (digits ++ rest) =
      (readNumber? (digits ++ rest)).map fun read => (.number read.1, read.2) := by
    rw [same]
    exact readLiteral?_digit digit _
  constructor
  · have read := literal []
    rw [readNumber?_append isDigits (by simp), List.append_nil] at read
    simpa [plain, fraction, startsWord] using read
  · intro rest
    have ends : ∀ c after, (" " : Text) ++ rest = c :: after → Text.isDigit c = false := by
      rintro c after ⟨⟩
      rfl
    have word : startsWord ((" " : Text) ++ rest) = false := rfl
    have places : fraction ((" " : Text) ++ rest) = ([], " " ++ rest) := rfl
    rw [literal, readNumber?_append isDigits ends, places]
    simp [plain, word]

theorem truth?_unread {t : Text} (unread : readLiteral? t = none) : truth? t = none := by
  simp [truth?, readTerm?, unread]

theorem Denotes.truth?_unread {operator : Text} (left : Denotes l a)
    (unread : readLiteral? r = none)
    (whole : (' ' : Char).toUInt8 ∉ operator) :
    Js.truth? (l ++ " " ++ operator ++ " " ++ r) = none := by
  have operators (rest : Text) : Text.cutStart? " " (" " ++ rest) = some rest := rfl
  have right : Js.readTerm? r = none := by simp [Js.readTerm?, unread]
  rw [Js.truth?]
  simp only [List.append_assoc, left.readTerm?_append, operators, Option.bind_eq_bind,
    Option.bind_some, Text.cut?_blank whole, right, Option.bind_none]

/-- A number that is padded is not read, whatever follows. -/
theorem readLiteral?_padded {digits : Text} (isDigits : digits.isDigits) (padded : digits.isPadded)
    (rest : Text) : readLiteral? (digits ++ rest) = none := by
  obtain ⟨b, others, rfl, digit⟩ := Text.exists_digit isDigits
  have longer : Text.isPadded (b :: (others ++ rest)) := by
    cases others with
    | nil => cases padded
    | cons c others => exact padded
  rw [List.cons_append, readLiteral?_digit digit, readNumber?_padded longer]
  rfl

/-- Comparing with a number that stands on the right. -/
theorem Denotes.truth?_number {operator : Text} (left : Denotes l a) (digits : r.isDigits)
    (whole : (' ' : Char).toUInt8 ∉ operator) : Js.truth? (l ++ " " ++ operator ++ " " ++ r) =
      if r.isPadded then none else compare? operator a (.number (numberOf r [])) := by
  split
  · next padded =>
    have unread := readLiteral?_padded digits padded []
    rw [List.append_nil] at unread
    exact left.truth?_unread unread whole
  · next plain => exact left.truth? (denotes_number digits (Bool.eq_false_iff.2 plain)) whole

/-- A whole number cannot be asked for its length. -/
theorem truth?_notEmpty_number {digits : Text} (isDigits : digits.isDigits) :
    truth? (Condition.notEmpty digits).holds = none ∧
    truth? (Condition.notEmpty digits).fails = none := by
  have unread {rest : Text} (word : startsWord (fraction rest).2)
      (ends : ∀ b after, rest = b :: after → Text.isDigit b = false) :
      truth? (digits ++ rest) = none := by
    apply truth?_unread
    have read := readNumber?_append isDigits ends
    obtain ⟨b, others, rfl, digit⟩ := Text.exists_digit isDigits
    rw [List.cons_append] at read ⊢
    rw [readLiteral?_digit digit, read]
    simp [word]
  constructor
  · refine unread rfl ?_
    rintro b after ⟨⟩
    rfl
  · refine unread rfl ?_
    rintro b after ⟨⟩
    rfl

theorem isString_stringLiteral {value : Text} (valid : Utf8.isValid value) :
    IsString (stringLiteral value) value := by
  intro rest
  rw [readLiteral?_stringLiteral, Utf8.repair_of_isValid valid]

theorem isString_template {innards value : Text} (read : templateValue innards = .ok value) :
    IsString (template innards) value := readLiteral?_template read

end Js

/-- Operands that the script spells out, each with the values of its pieces. -/
inductive Node.Spells : Node → List Text → Prop where
  | literal {n : Node} {value : Text} (means : n.Means value) : n.Spells [value]
  | string {n : Node} (kind : n.kind = .string)
    (contents : ∀ part ∈ Compile.quotedParts n, part.kind = .stringContent) :
    n.Spells ((Compile.quotedParts n).map fun part => Shell.unescapeDoubleQuoted part.text)

/-- How the value of an operand is written. -/
def Node.operandForm (n : Node) : List Text → Text
  | [value] => n.valueForm value
  | texts => joinedValue texts

theorem Node.operandForm_of_several {n : Node} {texts : List Text} (several : texts.length ≠ 1) :
    n.operandForm texts = joinedValue texts := by
  match texts with
  | [] | _ :: _ :: _ => rfl
  | [_] => exact absurd rfl several

/-- Operands that are written as strings: not as a number, and without a substitution. -/
structure Node.IsQuoted (n : Node) (texts : List Text) : Prop where
  kind : n.kind ≠ .number
  text : texts.length = 1 ∨ Text.isNumeral texts.flatten = false
  apart : ¬Js.MeetsLater texts

theorem Node.Spells.kind {n : Node} {texts : List Text} (spells : n.Spells texts) :
    n.kind ≠ .concatenation ∧ n.kind ≠ .commandSubstitution := by
  cases spells with
  | literal means => cases means <;> simp_all
  | string kind => simp [kind]

/-- A step that makes a fragment of its own, of which a form is written as a text. -/
def Writes (c : Compiler) (form : Form) (x : Compile FragmentId) (shown : Text) : Prop :=
  ∀ s, ∃ (t : CompileState) (fields : Fields) (u : CompileState),
    Compile.run s x = (.ok t.fragments.size, t.push (.ofFields fields)) ∧
    Compile.run (t.push (.ofFields fields)) (c.read t.fragments.size form) = (.ok (some shown), u)

namespace Writes
open CompileState Arguments
variable {registry : Registry} {fuel : Nat} {context : Context} {n : Node} {x : Compile FragmentId}

theorem of_makes {form : Form} {fields : Fields} {shown : Text} (texts : fields.IsText)
    (makes : Makes x fields) (written : fields.text? form = some shown) :
    Writes (.ofFuel registry (fuel + 1)) form x shown := by
  intro s
  have direct : fields.Direct form := .inr (by simp [written])
  obtain ⟨u, read, _⟩ := (holds_push fields).run_read texts direct registry fuel
  rw [written] at read
  exact ⟨s, fields, u, makes s, read⟩

/-- Joined literals are written as their template, or as the number in it. -/
theorem of_combines (enough : 12 ≤ fuel) {texts : List Text}
    (each : ∀ s, ∃ (t : CompileState) (fields : Fields) (entries : List (FragmentId × Text)),
      Compile.run s x = (.ok t.fragments.size, t.push (.ofFields fields)) ∧
      entries.map Prod.snd = texts ∧
      (t.push (.ofFields fields)).Combines [] t.fragments.size entries) :
    Writes (.ofFuel registry fuel) .value x (joinedValue texts) := by
  intro s
  obtain ⟨t, fields, entries, run, rfl, combines⟩ := each s
  obtain ⟨u, read, _⟩ := combines.run_read registry (rfl : Form.value.isUnquoted) enough
    (List.forall_mem_nil _)
  exact ⟨t, fields, u, run, read⟩

theorem node {c : Compiler} {form : Form} {shown : Text}
    (writes : Writes c form (Compile.branch (.ofFuel registry fuel) n context) shown) :
    Writes c form ((Compiler.ofFuel registry (fuel + 1)).compile n context) shown := by
  intro s
  obtain ⟨t, fields, u, run, read⟩ := writes s
  refine ⟨t, fields, u, ?_, read⟩
  change Compile.run s (Compile.node (.ofFuel registry fuel) n context) = _
  rw [Compile.node, Compile.run_tryCatch, run]

/-- A string without anything in it. -/
theorem empty (enough : 12 ≤ fuel) :
    Writes (.ofFuel registry fuel) .value
      (Compile.new [(.quotedInnards, .text []), (.templateInnards, .text [])])
      (n.operandForm []) := by
  refine of_combines enough fun s => ⟨s, _, [], rfl, rfl, ?_, ?_⟩
  · simp [Literals]
  · refine ⟨_, by simp [push]; rfl, .inr ⟨rfl, rfl⟩, ?_, ?_, ?_⟩
    · intro form unquoted other
      rw [Fragment.recipe?_ofFields]
      cases form
      case quotedInnards => cases unquoted
      case templateInnards => exact absurd rfl other
      all_goals rfl
    · intro form recipe quoted supplied
      rw [Fragment.recipe?_ofFields] at supplied
      cases form
      case quotedInnards =>
        obtain rfl := Option.some.inj supplied
        exact .text []
      case argument | singleQuoted => cases supplied
      all_goals cases quoted
    · intro form slot _ found
      simp [Fragment.slot?, Fragment.ofFields] at found

/-- The contents of a string are literals. -/
theorem run_contents (registry : Registry) (fuel : Nat) (context : Context) {parts : List Node}
    (contents : ∀ part ∈ parts, part.kind = .stringContent) (s : CompileState) :
    ∃ (entries : List (FragmentId × Text)) (t : CompileState),
      Compile.run s (parts.mapM fun part => (Compiler.ofFuel registry (fuel + 1)).compile part
        context) =
        (.ok (entries.map Prod.fst), t) ∧
      entries.map Prod.snd = parts.map (fun part => Shell.unescapeDoubleQuoted part.text) ∧
      t.Literals entries := by
  have means : List.Forall₂ LiteralPart.Means (parts.map .node)
      (parts.map fun part => Shell.unescapeDoubleQuoted part.text) := by
    rw [List.forall₂_map_left_iff, List.forall₂_map_right_iff, List.forall₂_same]
    exact fun part member => .node (.stringContent (contents part member))
  obtain ⟨ids, t, made, length, literals, _⟩ := run_make registry fuel means context s
  rw [List.mapM_map] at made
  rw [List.length_map] at length
  refine ⟨ids.zip (parts.map fun part => Shell.unescapeDoubleQuoted part.text), t, ?_,
    List.map_snd_zip (by simp [length]), literals⟩
  rw [List.map_fst_zip (by simp [length])]
  exact made

/-- The contents of a string, unless there is just one. -/
theorem joined (enough : 12 ≤ fuel) {less : Nat} {parts : List Node} (several : parts.length ≠ 1)
    (contents : ∀ part ∈ parts, part.kind = .stringContent) :
    Writes (.ofFuel registry fuel) .value
      (parts.mapM (fun part => (Compiler.ofFuel registry (less + 1)).compile part context) >>=
        fun ids =>
        combine (.ofFuel registry (less + 1)) ids)
      (joinedValue (parts.map fun part => Shell.unescapeDoubleQuoted part.text)) := by
  refine of_combines enough fun s => ?_
  obtain ⟨entries, t, made, texts, literals⟩ := run_contents registry less context contents s
  have length : entries.length ≠ 1 := by
    rwa [← List.length_map (f := Prod.snd), texts, List.length_map]
  obtain ⟨argument, quoted, u, combined, keeps, argumentFrom, quotedFrom⟩ :=
    run_combine_fields registry less literals length
  refine ⟨u, _, _, ?_, texts, (keeps.literals literals).combines_push argumentFrom quotedFrom⟩
  exact (Compile.run_bind_ok made _).trans combined

end Writes

/-- The value of an operand is written by its kind. -/
theorem Node.Spells.writes {n : Node} {texts : List Text} (spells : n.Spells texts)
    (registry : Registry)
    {fuel : Nat} (enough : 14 ≤ fuel) (context : Context) :
    Writes (.ofFuel registry fuel) .value ((Compiler.ofFuel registry fuel).compile n context)
      (n.operandForm texts) := by
  obtain ⟨fuel, rfl⟩ : ∃ less, fuel = less + 2 := ⟨fuel - 2, by omega⟩
  cases spells with
  | literal means =>
    obtain ⟨fields, literal, makes, _, written⟩ := means.makes_value registry (fuel + 1) context
    exact .of_makes literal.texts makes written
  | string kind contents =>
    apply Writes.node
    rw [Compile.branch, kind]
    dsimp only
    rw [Compile.string]
    split
    · next none =>
      rw [none]
      exact .empty (by omega)
    · next only alone =>
      have content : only.kind = .stringContent := contents only (by simp [alone])
      have means : only.Means (Shell.unescapeDoubleQuoted only.text) := .stringContent content
      obtain ⟨fields, literal, makes, _, written⟩ := means.makes_value registry fuel context
      rw [alone]
      refine .of_makes literal.texts makes (written.trans ?_)
      simp only [List.map_cons, List.map_nil, operandForm, valueForm, content, kind]
    · next alone =>
      have several : (Compile.quotedParts n).length ≠ 1 := by
        intro single
        obtain ⟨only, same⟩ := List.length_eq_one_iff.1 single
        exact alone only same
      rw [operandForm_of_several (by rwa [List.length_map])]
      exact .joined (by omega) several contents

/-! How operands are read back. -/

theorem Compile.soleSubstitution?_of_head {b : UInt8} {rest : Text} (other : b ≠ Ascii.backtick) :
    soleSubstitution? (b :: rest) = none := by
  have mark : ("`$\x7b" : Text) = Ascii.backtick :: [Ascii.dollar, Ascii.openBrace] := rfl
  have absent : Text.cutStart? "`$\x7b" (b :: rest) = none := by
    rw [Text.cutStart?, mark, List.isPrefixOf_cons_cons, beq_false_of_ne other.symm]
    rfl
  rw [soleSubstitution?, absent]
  rfl

/-- A template that can be read holds no substitution. -/
theorem Compile.soleSubstitution?_template {innards value : Text}
    (read : Js.templateValue innards = .ok value) :
    soleSubstitution? (Js.template innards) = none := by
  have absent : Text.cutStart? "`$\x7b" (Js.template innards) = none := by
    have mark : ("`$\x7b" : Text) = [Ascii.backtick, Ascii.dollar, Ascii.openBrace] := rfl
    have shape : Js.template innards = Ascii.backtick :: (innards ++ [Ascii.backtick]) := rfl
    rw [Text.cutStart?, if_neg]
    intro starts
    rw [mark, shape, List.isPrefixOf_iff_prefix, List.cons_prefix_cons] at starts
    rcases innards with _ | ⟨b, _ | ⟨c, rest⟩⟩
    · simp +decide at starts
    · simp +decide at starts
    · obtain ⟨rfl, rfl⟩ : Ascii.dollar = b ∧ Ascii.openBrace = c := by simpa using starts
      rw [Js.templateValue_substitution rfl] at read
      cases read
  rw [soleSubstitution?, absent]
  rfl

/-- An operand in quotes is a string with its value. -/
theorem Node.Spells.isString {n : Node} {texts : List Text} (spells : n.Spells texts)
    (quoted : n.IsQuoted texts) (valid : Utf8.isValid n.text) :
    Js.IsString (n.operandForm texts) texts.flatten ∧
      Compile.soleSubstitution? (n.operandForm texts) = none := by
  have template {innards value : Text} (read : Js.templateValue innards = .ok value) :
      Js.IsString (Js.template innards) value ∧
      Compile.soleSubstitution? (Js.template innards) = none :=
    ⟨Js.isString_template read, Compile.soleSubstitution?_template read⟩
  have string {value : Text} (valid : Utf8.isValid value) :
      Js.IsString (Js.stringLiteral value) value ∧
      Compile.soleSubstitution? (Js.stringLiteral value) = none :=
    ⟨Js.isString_stringLiteral valid, Compile.soleSubstitution?_of_head (by decide)⟩
  cases spells with
  | @literal value means =>
    have alone : [value].flatten = value := by simp
    rw [alone, operandForm]
    cases means with
    | word kind home =>
      simpa only [valueForm, kind] using template (Js.templateValue_templateInnards _)
    | number kind => exact absurd kind quoted.kind
    | rawString kind text =>
      simpa only [valueForm, kind] using string
        ((Node.Means.rawString kind text).isValid (.inl kind) valid)
    | ansiString kind text =>
      simpa only [valueForm, kind] using string
        ((Node.Means.ansiString kind text).isValid (.inr kind) valid)
    | stringContent kind =>
      simpa only [valueForm, kind] using template (Js.templateValue_templateInnards _)
  | string kind contents =>
    generalize (Compile.quotedParts n).map _ = texts at quoted ⊢
    have read := Js.templateValue_flatten texts
    rw [if_neg quoted.apart] at read
    by_cases single : texts.length = 1
    · obtain ⟨value, rfl⟩ := List.length_eq_one_iff.1 single
      simpa [operandForm, valueForm, kind] using template read
    · have plain : Text.isNumeral texts.flatten = false := quoted.text.resolve_left single
      rw [operandForm_of_several single, joinedValue, quotedNumber?_template,
        isNumeral_flatten_templateInnards, plain]
      exact template read

/-- A number is written as it stands. -/
theorem Node.Spells.isNumber {n : Node} {texts : List Text} (spells : n.Spells texts)
    (kind : n.kind = .number) : Text.isDigits texts.flatten ∧ n.operandForm texts = texts.flatten ∧
      Compile.soleSubstitution? (n.operandForm texts) = none := by
  cases spells with
  | string string => simp [kind] at string
  | literal means =>
    cases means with
    | number _ digits =>
      have alone : [n.text].flatten = n.text := by simp
      have written : n.operandForm [n.text] = n.text := by simp only [operandForm, valueForm, kind]
      obtain ⟨b, rest, same, digit⟩ := Text.exists_digit digits
      refine ⟨by rwa [alone], by rw [written, alone], ?_⟩
      rw [written, same]
      apply Compile.soleSubstitution?_of_head
      rintro rfl
      cases digit
    | word other | rawString other | ansiString other | stringContent other => simp [kind] at other

namespace Compile
open Arguments Test

/-- Whatever was done before, an operand is written as a text. -/
def Renders (c : Compiler) (context : Context) (n : Node) (shown : Text) : Prop :=
  ∀ s, ∃ t, run s (operandValue c context false (.ofNodes [n])) = (.ok (some shown), t)

/-- Whatever was done before, some words are read as a condition and others are left. -/
def TestsAs (c : Compiler) (context : Context) (words after : List TestWord)
    (found : Condition) : Prop :=
  ∀ s, ∃ t, run s (operandTest c context (words ++ after)) = (.ok (some (found, after)), t)

/-- The string tests of one operand, wherever they stand. -/
structure TestsLength (c : Compiler) (context : Context) (n : Node) (shown : Text) : Prop where
  notEmpty : ∀ (mark : TestWord) after, mark.text = "-n" →
    isInfix (mark :: .ofNodes [n] :: after) = false →
    TestsAs c context [mark, .ofNodes [n]] after (.notEmpty shown)
  empty : ∀ (mark : TestWord) after, mark.text = "-z" →
    isInfix (mark :: .ofNodes [n] :: after) = false →
    TestsAs c context [mark, .ofNodes [n]] after (Condition.notEmpty shown).negate
  alone : ∀ after, isInfix (.ofNodes [n] :: after) = false →
    ((TestWord.ofNodes [n]).text ∈ sizeOperators ++ fileOperators → after = []) →
    TestsAs c context [.ofNodes [n]] after (.notEmpty shown)

/-- The string tests of two operands, wherever they stand. -/
structure TestsPair (c : Compiler) (context : Context) (n m : Node) (l r : Text) : Prop where
  equal : ∀ (operator : TestWord) after, operator.text = "=" ∨ operator.text = "==" →
    TestsAs c context [.ofNodes [n], operator, .ofNodes [m]] after
    ⟨l ++ " === " ++ r, l ++ " !== " ++ r⟩
  unequal : ∀ (operator : TestWord) after, operator.text = "!=" →
    TestsAs c context [.ofNodes [n], operator, .ofNodes [m]] after
    ⟨l ++ " !== " ++ r, l ++ " === " ++ r⟩
  less : ∀ (operator : TestWord) after, operator.text = "<" →
    TestsAs c context [.ofNodes [n], operator, .ofNodes [m]] after
    ⟨l ++ " < " ++ r, l ++ " >= " ++ r⟩
  greater : ∀ (operator : TestWord) after, operator.text = ">" →
    TestsAs c context [.ofNodes [n], operator, .ofNodes [m]] after
    ⟨l ++ " > " ++ r, l ++ " <= " ++ r⟩

variable {c : Compiler} {context : Context} {n m : Node} {l r shown : Text}

theorem renders_of_writes (writes : Writes c .value (c.compile n context) shown)
    (kind : n.kind ≠ .concatenation) :
    Renders c context n ((soleSubstitution? shown).getD shown) := by
  intro s
  obtain ⟨t, fields, u, compiled, read⟩ := writes s
  have present : (t.push (.ofFields fields)).fragments[t.fragments.size]? =
      some (.ofFields fields) := by
    simp [CompileState.push]
  have converted := run_convert_of_compile kind compiled present rfl
  have single : run s (convertOne c context [n]) =
      (.ok (some t.fragments.size), t.push (.ofFields fields)) := by
    rw [convertOne, run_bind_ok converted]
    rfl
  have proper : run (t.push (.ofFields fields)) (isFallback t.fragments.size) =
      (.ok false, t.push (.ofFields fields)) := by
    rw [isFallback, run_bind_ok (run_fragment_some present)]
    rfl
  refine ⟨u, ?_⟩
  simp only [operandValue, TestWord.ofNodes, run_bind_ok single, run_bind_ok proper,
    Bool.false_eq_true, if_false, run_bind_ok read, run_pure]

theorem Renders.testsAs (left : Renders c context n l) (right : Renders c context m r)
    {operator : TestWord} {comparison : Comparison} (after : List TestWord)
    (listed : comparisons.lookup operator.text = some comparison)
      (strings : comparison.numeric = false) :
    TestsAs c context [.ofNodes [n], operator, .ofNodes [m]] after
      ⟨l ++ " " ++ comparison.holds ++ " " ++ r, l ++ " " ++ comparison.fails ++ " " ++ r⟩ := by
  intro s
  obtain ⟨t, first⟩ := left s
  obtain ⟨u, second⟩ := right t
  refine ⟨u, ?_⟩
  simp only [List.cons_append, List.nil_append, operandTest, listed, binaryTest, strings, run_bind,
    first, second, run_pure, Bool.false_eq_true, if_false, Option.map_some]

theorem Renders.testsPair (left : Renders c context n l) (right : Renders c context m r) :
    TestsPair c context n m l r := by
  have spaced {holds fails : Text} {operator : TestWord} {after : List TestWord}
      {between other : Text}
      (listed : comparisons.lookup operator.text = some ⟨holds, fails, false⟩)
      (first : between = " " ++ (holds ++ " ")) (second : other = " " ++ (fails ++ " ")) :
      TestsAs c context [.ofNodes [n], operator, .ofNodes [m]] after
        ⟨l ++ between ++ r, l ++ other ++ r⟩ := by
    have tests := left.testsAs right after listed rfl
    simp only [List.append_assoc] at tests
    simpa only [first, second, List.append_assoc] using tests
  constructor
  · rintro operator after (same | same)
    · exact spaced (by rw [same]; rfl) rfl rfl
    · exact spaced (by rw [same]; rfl) rfl rfl
  · intro operator after same
    exact spaced (by rw [same]; rfl) rfl rfl
  · intro operator after same
    exact spaced (by rw [same]; rfl) rfl rfl
  · intro operator after same
    exact spaced (by rw [same]; rfl) rfl rfl

/-- Without an operator between operands the first word decides. -/
theorem operandTest_alone {word second : TestWord} {rest : List TestWord}
    (alone : isInfix (word :: second :: rest) = false) :
    operandTest c context (word :: second :: rest) =
      if isUnary word.text then do
        return (← unaryTest c context word.text second).map (·, rest)
      else operandTest.single c context word (second :: rest) := by
  unfold operandTest
  dsimp only
  split
  · next listed => simp [isInfix, lookup_operators, listed] at alone
  · next marked _ => simp [isInfix, marked] at alone
  · rfl

theorem Renders.testsLength (renders : Renders c context n shown)
    (unlike : substitutedLookup? context [n] = none) : TestsLength c context n shown := by
  have single (s : CompileState) (after : List TestWord) :
      ∃ t, run s (operandTest.single c context (.ofNodes [n]) after) =
        (.ok (some (.notEmpty shown, after)), t) := by
    obtain ⟨t, value⟩ := renders s
    refine ⟨t, ?_⟩
    simp only [operandTest.single, run_bind_ok value, run_pure, Option.map_some]
  have lookup (s : CompileState) : run s (lookupTest c context (.ofNodes [n])) = (.ok none, s) := by
    simp only [lookupTest, TestWord.ofNodes, unlike, run_pure]
  constructor
  · intro mark after same alone s
    obtain ⟨t, value⟩ := renders s
    have unary : isUnary mark.text := by rw [same]; decide
    refine ⟨t, ?_⟩
    rw [List.cons_append, List.singleton_append, operandTest_alone alone, if_pos unary, same]
    simp +decide only [unaryTest, run_bind, lookup, value, run_pure, if_true, Option.map_some]
  · intro mark after same alone s
    obtain ⟨t, value⟩ := renders s
    have unary : isUnary mark.text := by rw [same]; decide
    refine ⟨t, ?_⟩
    rw [List.cons_append, List.singleton_append, operandTest_alone alone, if_pos unary, same]
    simp +decide only [unaryTest, run_bind, lookup, value, run_pure, if_true, if_false,
      Option.map_some]
  · intro after alone last s
    cases after with
    | nil => exact single s []
    | cons second after =>
      have other : ¬isUnary (TestWord.ofNodes [n]).text := by
        rw [isUnary_iff]
        exact fun mark => absurd (last mark) (by simp)
      rw [List.singleton_append, operandTest_alone alone, if_neg other]
      exact single s _

/-- An operand that is spelled out looks nothing up. -/
theorem substitutedLookup?_of_spells {texts : List Text} (spells : n.Spells texts) :
    substitutedLookup? context [n] = none := by
  have kind := spells.kind.2
  cases spells with
  | literal means =>
    have string : n.kind ≠ .string := by cases means <;> simp_all
    simp [substitutedLookup?, string, kind]
  | string string contents =>
    simp only [substitutedLookup?, string, beq_self_eq_true, if_true, Option.bind_eq_bind]
    split
    · next only alone =>
      have content := contents only (by simp [alone])
      simp [content]
    · rfl

/-- String tests of operands that the script spells out, in every place where they can stand.
Operands in quotes are written as strings, so that equality and emptiness are those of the shell. A
number has no length and is equal to no string; a padded one cannot be read at all. -/
theorem string_tests (registry : Registry) {fuel : Nat} (enough : 14 ≤ fuel) (context : Context)
    {n m : Node} {left right : List Text} (first : n.Spells left) (second : m.Spells right)
    (validFirst : Utf8.isValid n.text) (validSecond : Utf8.isValid m.text) :
    ∃ l r, Renders (.ofFuel registry fuel) context n l ∧
      Renders (.ofFuel registry fuel) context m r ∧
      TestsLength (.ofFuel registry fuel) context n l ∧
        TestsPair (.ofFuel registry fuel) context n m l r ∧
      (n.IsQuoted left → Js.IsString l left.flatten ∧
        Js.truth? (Condition.notEmpty l).holds = some (decide (left.flatten ≠ [])) ∧
        Js.truth? (Condition.notEmpty l).fails = some (decide (left.flatten = []))) ∧
      (n.IsQuoted left → m.IsQuoted right →
        Js.truth? (l ++ " === " ++ r) = some (decide (left.flatten = right.flatten)) ∧
        Js.truth? (l ++ " !== " ++ r) = some (decide (left.flatten ≠ right.flatten))) ∧
      (n.IsQuoted left → m.kind = .number → Js.truth? (l ++ " === " ++ r) =
        if Text.isPadded right.flatten then none else some false) ∧
      (n.kind = .number → Js.truth? (Condition.notEmpty l).holds = none ∧
        Js.truth? (Condition.notEmpty l).fails = none ∧
        (m.IsQuoted right → Js.truth? (l ++ " === " ++ r) =
          if Text.isPadded left.flatten then none else some false) ∧
        (m.kind = .number → Js.truth? (l ++ " === " ++ r) =
          if Text.isPadded left.flatten ∨ Text.isPadded right.flatten then none
          else some ((Js.numberOf left.flatten []).equal (Js.numberOf right.flatten [])))) := by
  have operand {k : Node} {texts : List Text} (spells : k.Spells texts) :=
    renders_of_writes (spells.writes registry enough context) spells.kind.1
  have string {k : Node} {texts : List Text} (spells : k.Spells texts) (quoted : k.IsQuoted texts)
      (valid : Utf8.isValid k.text) :
      Js.IsString ((soleSubstitution? (k.operandForm texts)).getD (k.operandForm texts))
        texts.flatten := by
    obtain ⟨string, sole⟩ := spells.isString quoted valid
    rwa [sole]
  have number {k : Node} {texts : List Text} (spells : k.Spells texts) (kind : k.kind = .number) :
      Text.isDigits texts.flatten ∧
        (soleSubstitution? (k.operandForm texts)).getD (k.operandForm texts) = texts.flatten := by
    obtain ⟨digits, written, sole⟩ := spells.isNumber kind
    rw [sole]
    exact ⟨digits, written⟩
  have spaced (l r : Text) : l ++ " === " ++ r = l ++ " " ++ "===" ++ " " ++ r ∧
      l ++ " !== " ++ r = l ++ " " ++ "!==" ++ " " ++ r := by
    have split : (" === " : Text) = " " ++ ("===" ++ " ") ∧
        (" !== " : Text) = " " ++ ("!==" ++ " ") :=
      ⟨rfl, rfl⟩
    simp only [split, List.append_assoc, and_self]
  refine ⟨_, _, operand first, operand second,
    (operand first).testsLength (substitutedLookup?_of_spells first),
    (operand first).testsPair (operand second), ?_, ?_, ?_, ?_⟩
  · intro quoted
    have isString := string first quoted validFirst
    exact ⟨isString, isString.truth?_notEmpty⟩
  · intro quotedFirst quotedSecond
    have denotesFirst := (string first quotedFirst validFirst).denotes
    have denotesSecond := (string second quotedSecond validSecond).denotes
    rw [(spaced _ _).1, (spaced _ _).2, denotesFirst.truth? denotesSecond (by decide),
      denotesFirst.truth? denotesSecond (by decide)]
    constructor
    · exact congrArg some (beq_eq_decide _ _)
    · exact congrArg some (by rw [decide_not, ← beq_eq_decide]; rfl)
  · intro quoted kind
    obtain ⟨digits, written⟩ := number second kind
    rw [written, (spaced _ _).1]
    exact (string first quoted validFirst).denotes.truth?_number digits (by decide)
  · intro kind
    obtain ⟨digits, written⟩ := number first kind
    rw [written, (spaced _ _).1]
    obtain ⟨holds, fails⟩ := Js.truth?_notEmpty_number digits
    refine ⟨holds, fails, fun quoted => ?_, fun other => ?_⟩
    · have denotesSecond := (string second quoted validSecond).denotes
      split
      · next padded =>
        apply Js.truth?_unread
        simp only [List.append_assoc]
        exact Js.readLiteral?_padded digits padded _
      · next plain =>
        exact (Js.denotes_number digits (Bool.eq_false_iff.2 plain)).truth? denotesSecond
          (by decide)
    · obtain ⟨others, same⟩ := number second other
      rw [same]
      by_cases padded : Text.isPadded left.flatten
      · rw [if_pos (.inl padded)]
        apply Js.truth?_unread
        simp only [List.append_assoc]
        exact Js.readLiteral?_padded digits padded _
      have denotes := Js.denotes_number digits (Bool.eq_false_iff.2 padded)
      have told := denotes.truth?_number others
        (by decide : (' ' : Char).toUInt8 ∉ ("===" : Text))
      by_cases paddedSecond : Text.isPadded right.flatten
      · rw [if_pos (.inr paddedSecond), told, if_pos paddedSecond]
      · rw [if_neg (not_or.2 ⟨padded, paddedSecond⟩), told, if_neg paddedSecond]
        rfl

/-- A number in quotes is equal to the same number without them, but the test says otherwise. -/
theorem string_tests_five :
    (Node.leaf .number "5").Spells ["5"] ∧ (Node.leaf .rawString "'5'").Spells ["5"] ∧ ∃ l r,
      TestsPair (.ofFuel .standard 14) .none (.leaf .number "5") (.leaf .rawString "'5'") l r ∧
      Js.truth? (l ++ " === " ++ r) = some false ∧
        Js.truth? (Condition.notEmpty l).holds = none := by
  have number : (Node.leaf .number "5").Spells ["5"] := .literal (.number rfl (by decide))
  have string : (Node.leaf .rawString "'5'").Spells ["5"] := .literal (.rawString rfl rfl)
  have quoted : (Node.leaf .rawString "'5'").IsQuoted ["5"] :=
    ⟨by decide, .inl rfl, by simp [Js.MeetsLater, Js.Meet]⟩
  obtain ⟨l, r, _, _, _, tests, _, _, _, numbers⟩ :=
    string_tests .standard (by decide : 14 ≤ 14) .none number string (by decide) (by decide)
  obtain ⟨unread, _, unequal, _⟩ := numbers rfl
  exact ⟨number, string, l, r, tests, (unequal quoted).trans rfl, unread⟩

end Compile

end ShellToDeno
