import ShellToDeno.Proofs.Quoting.Template
import ShellToDeno.Dax.Quoting
import Mathlib.Data.List.Forall2

/-!
# Command strings split into words

`Shell.words?` splits a command string as a shell does: blanks part the words, and what stands
between quotes is literal. It refuses a string in which a byte outside quotes would not stand for
itself. Each way of quoting an argument spells the word it was made from (`Spells.wordArgument`,
`Spells.singleQuoted`), and so do arguments with blanks between them (`words?_join`).
-/
namespace ShellToDeno

/-- A property of bytes can be checked byte by byte. -/
instance decidableForallByte {P : UInt8 → Prop} [DecidablePred P] : Decidable (∀ b, P b) :=
  decidable_of_iff (∀ n : Fin 256, P (UInt8.ofNat n))
    ⟨fun all b => by simpa using all ⟨b.toNat, b.toNat_lt⟩, fun all n => all _⟩

/-- One byte is replaced wherever it stands. -/
theorem Text.replaceAll_cons (piece : UInt8) (new : Text) (b : UInt8) (text : Text) :
    Text.replaceAll [piece] new (b :: text) =
      (if b = piece then new else [b]) ++ Text.replaceAll [piece] new text := by
  have begins : Text.begins [piece] (b :: text) = (piece == b) := by
    simp [Text.begins, List.isPrefixOf]
  rw [Text.replaceAll, Text.replaceFrom, begins]
  by_cases same : b = piece
  · simp [same, Text.replaceAll]
  · simp [same, Ne.symm same, Text.replaceAll]

theorem Text.replaceAll_append (piece : UInt8) (new first second : Text) :
    Text.replaceAll [piece] new (first ++ second) =
      Text.replaceAll [piece] new first ++ Text.replaceAll [piece] new second := by
  induction first with
  | nil => rfl
  | cons b first ih =>
    rw [List.cons_append, Text.replaceAll_cons, Text.replaceAll_cons, ih, List.append_assoc]

namespace Shell

def isQuote (b : UInt8) : Bool := b == Ascii.singleQuote || b == Ascii.doubleQuote

def isBlank (b : UInt8) : Bool := Text.isOneOf " \t\n" b

/-- Bytes that outside quotes are operators, or that begin expansions and patterns. -/
def isActive (b : UInt8) : Bool := Text.isOneOf ";&|<>()$`\\*!\x7b\x7d" b

/-- Walks a command string, inside a quote or not, with what is read of the current word. -/
def wordsFrom : Option UInt8 → Option Text → Text → Option (List Text)
  | some _, _, [] => none
  | none, word, [] => some word.toList
  | some quote, word, b :: rest =>
    if b == quote then wordsFrom none word rest
    else wordsFrom (some quote) (some (word.getD [] ++ [b])) rest
  | none, word, b :: rest =>
    if isQuote b then wordsFrom (some b) (some (word.getD [])) rest
    else if isBlank b then (wordsFrom none none rest).map (word.toList ++ ·)
    else if isActive b then none
    else wordsFrom none (some (word.getD [] ++ [b])) rest

/-- The words of a command string, none if it holds an open quote or anything but words. -/
def words? (line : Text) : Option (List Text) := wordsFrom none none line

example : words? "echo 'a b'\"'\"c '' d" = some (["echo", "a b'c", "", "d"] : List Text) := by rfl

example : words? "echo a;b" = none := by rfl

/-- A piece of a command string that adds a text to the current word. -/
def Spells (piece value : Text) : Prop :=
  ∀ word rest, wordsFrom none word (piece ++ rest) =
  wordsFrom none (some (word.getD [] ++ value)) rest

theorem wordsFrom_open {quote : UInt8} (isQuote : isQuote quote) (word : Option Text)
    (rest : Text) :
    wordsFrom none word (quote :: rest) = wordsFrom (some quote) (some (word.getD [])) rest := by
  simp [wordsFrom, isQuote]

theorem wordsFrom_close (quote : UInt8) (word : Option Text) (rest : Text) :
    wordsFrom (some quote) word (quote :: rest) = wordsFrom none word rest := by
  simp [wordsFrom]

theorem wordsFrom_quoted {quote b : UInt8} (other : b ≠ quote) (word rest : Text) :
    wordsFrom (some quote) (some word) (b :: rest) =
      wordsFrom (some quote) (some (word ++ [b])) rest := by
  simp [wordsFrom, other]

/-- Bytes of a bare word that stand for themselves once those that are special are quoted. -/
def isOrdinary (b : UInt8) : Bool := !Text.isOneOf "\t\n\r\";&|<>()$`\\" b

theorem ordinary_classes : ∀ b : UInt8, isOrdinary b → Js.isTemplatePlain b ∧
    (¬Dax.isWordSpecial b → isQuote b = false ∧ isBlank b = false ∧ isActive b = false) := by
  decide +kernel

/-- Bytes that neither quoting nor escaping touches. -/
theorem bare_classes : ∀ b : UInt8, Dax.isBareByte b → isOrdinary b ∧ Dax.isWordSpecial b = false ∧
    b ≠ Ascii.backslash ∧ b ≠ Ascii.backtick ∧ b ≠ Ascii.dollar ∧ Js.templateByte b = [b] := by
  decide +kernel

theorem Spells.ordinary {b : UInt8} (ordinary : isOrdinary b) (special : ¬Dax.isWordSpecial b) :
    Spells [b] [b] := by
  obtain ⟨quote, blank, active⟩ := (ordinary_classes b ordinary).2 special
  intro word rest
  simp [wordsFrom, quote, blank, active]

/-- A word goes on inside or outside quotes, as `Dax.wordFrom` left it. -/
theorem wordsFrom_wordFrom {s : Text} (ordinary : ∀ b ∈ s, isOrdinary b) (quoted : Bool)
    (word rest : Text) :
    wordsFrom (if quoted then some Ascii.doubleQuote else none) (some word)
      (Dax.wordFrom quoted s ++ rest) = wordsFrom none (some (word ++ s)) rest := by
  induction s generalizing quoted word with
  | nil =>
    cases quoted with
    | false => simp [Dax.wordFrom]
    | true => exact (wordsFrom_close _ _ _).trans (by simp)
  | cons b s ih =>
    have later := ih fun c inside => ordinary c (by simp [inside])
    have now := ordinary b (by simp)
    by_cases special : Dax.isWordSpecial b
    · have other : b ≠ Ascii.doubleQuote := by
        rintro rfl
        exact absurd special (by decide)
      have inside : wordsFrom (some Ascii.doubleQuote) (some word)
          (b :: Dax.wordFrom true s ++ rest) = wordsFrom none (some (word ++ b :: s)) rest := by
        rw [List.cons_append, wordsFrom_quoted other]
        simpa using later true (word ++ [b])
      cases quoted with
      | true => simpa [Dax.wordFrom, special] using inside
      | false =>
        simp only [Dax.wordFrom, special]
        exact (wordsFrom_open (by decide) _ _).trans inside
    · have outside : wordsFrom none (some word) (b :: Dax.wordFrom false s ++ rest) =
          wordsFrom none (some (word ++ b :: s)) rest := by
        refine (Spells.ordinary now special _ _).trans ?_
        simpa using later false (word ++ [b])
      cases quoted with
      | true =>
        simp only [Dax.wordFrom, special]
        exact (wordsFrom_close _ _ _).trans outside
      | false => simpa [Dax.wordFrom, special] using outside

/-- A word starts at the first byte that is no blank. -/
theorem wordsFrom_start {b : UInt8} (blank : isBlank b = false) (word : Option Text) (rest : Text) :
    wordsFrom none word (b :: rest) = wordsFrom none (some (word.getD [])) (b :: rest) := by
  simp [wordsFrom, blank]

/-- A bare word spells itself once its special bytes are quoted. -/
theorem Spells.wordArgument {s : Text} (ordinary : ∀ b ∈ s, isOrdinary b) (some : s ≠ []) :
    Spells (Dax.wordArgument s) s := by
  intro word rest
  have started : wordsFrom none word (Dax.wordArgument s ++ rest) =
      wordsFrom none (Option.some (word.getD [])) (Dax.wordArgument s ++ rest) := by
    cases s with
    | nil => exact absurd rfl some
    | cons b s =>
      rw [Dax.wordArgument, Dax.wordFrom]
      split
      · exact wordsFrom_start rfl word _
      · next special =>
        have blank := ((ordinary_classes b (ordinary b (by simp))).2 special).2.1
        exact wordsFrom_start blank word _
  rw [started]
  exact wordsFrom_wordFrom ordinary false _ rest

theorem singleQuoteInnards_cons (b : UInt8) (s : Text) :
    Dax.singleQuoteInnards (b :: s) =
      (if b = Ascii.singleQuote then ("'\"'\"'" : Text) else [b]) ++ Dax.singleQuoteInnards s :=
  Text.replaceAll_cons Ascii.singleQuote _ b s

theorem wordsFrom_singleQuoteInnards (s word rest : Text) :
    wordsFrom (some Ascii.singleQuote) (some word)
      (Dax.singleQuoteInnards s ++ Ascii.singleQuote :: rest) =
      wordsFrom none (some (word ++ s)) rest := by
  induction s generalizing word with
  | nil => exact (wordsFrom_close _ _ _).trans (by simp)
  | cons b s ih =>
    rw [singleQuoteInnards_cons, List.append_assoc]
    by_cases apostrophe : b = Ascii.singleQuote
    · subst apostrophe
      refine Eq.trans ?_ ((ih (word ++ [Ascii.singleQuote])).trans (by simp))
      refine (wordsFrom_close _ _ _).trans ?_
      refine (wordsFrom_open rfl _ _).trans ?_
      refine (wordsFrom_quoted (by decide) _ _).trans ?_
      refine (wordsFrom_close _ _ _).trans ?_
      exact wordsFrom_open rfl _ _
    · rw [if_neg apostrophe]
      refine (wordsFrom_quoted apostrophe _ _).trans ?_
      simpa using ih (word ++ [b])

/-- Any text between single quotes spells itself. -/
theorem Spells.singleQuoted (s : Text) : Spells ("'" ++ Dax.singleQuoteInnards s ++ "'") s := by
  intro word rest
  rw [List.append_assoc, List.append_assoc]
  refine (wordsFrom_open (by decide) _ _).trans ?_
  exact wordsFrom_singleQuoteInnards s _ rest

/-- Words that are spelled one by one, a blank between any two. -/
theorem words?_join {pieces values : List Text} (spelled : List.Forall₂ Spells pieces values) :
    words? (Text.join " " pieces) = some values := by
  induction spelled with
  | nil => rfl
  | @cons piece value pieces values first later ih =>
    cases later with
    | nil =>
      have alone := first none []
      rw [List.append_nil] at alone
      simpa [Text.join, words?, wordsFrom] using alone
    | @cons next _ others _ second more =>
      have parted : Text.join " " (piece :: next :: others) =
          piece ++ (" " ++ Text.join " " (next :: others)) := by
        simp [Text.join, List.intercalate]
      rw [parted, words?, first]
      exact congrArg (Option.map ([value] ++ ·)) ih

end Shell

namespace Js

theorem mem_wordFrom {b : UInt8} {quoted : Bool} {s : Text} (inside : b ∈ Dax.wordFrom quoted s) :
    b = Ascii.doubleQuote ∨ b ∈ s := by
  have quote : ("\"" : Text) = [Ascii.doubleQuote] := rfl
  induction s generalizing quoted with
  | nil => cases quoted <;> simp_all [Dax.wordFrom]
  | cons c s ih =>
    have later (quoted : Bool) : b ∈ Dax.wordFrom quoted s → b = Ascii.doubleQuote ∨ b ∈ s := ih
    rw [Dax.wordFrom, quote] at inside
    grind

theorem Shows.wordArgument {s : Text} (ordinary : ∀ b ∈ s, Shell.isOrdinary b) :
    Shows (Dax.wordArgument s) (Dax.wordArgument s) := by
  apply Shows.plainText
  intro b inside
  rcases mem_wordFrom inside with rfl | inside
  · rfl
  · exact (Shell.ordinary_classes b (ordinary b inside)).1

theorem head?_singleQuoteInnards (s : Text) : (Dax.singleQuoteInnards s).head? = s.head? := by
  cases s with
  | nil => rfl
  | cons b s =>
    rw [Shell.singleQuoteInnards_cons]
    split
    · next apostrophe => rw [apostrophe]; rfl
    · rfl

theorem singleQuoteInnards_append (s t : Text) :
    Dax.singleQuoteInnards (s ++ t) = Dax.singleQuoteInnards s ++ Dax.singleQuoteInnards t := by
  induction s with
  | nil => rfl
  | cons b s ih =>
    simp only [List.cons_append, Shell.singleQuoteInnards_cons, ih, List.append_assoc]

/-- Quoting and escaping touch different bytes, so their order does not matter. -/
theorem singleQuoteInnards_templateInnards (s : Text) :
    Dax.singleQuoteInnards (templateInnards s) = templateInnards (Dax.singleQuoteInnards s) := by
  fun_induction templateInnards s with
  | case1 => rfl
  | case2 s ih => exact congrArg (("\\\\" : Text) ++ ·) ih
  | case3 s ih => exact congrArg (("\\`" : Text) ++ ·) ih
  | case4 s ih => exact congrArg (("\\$\x7b" : Text) ++ ·) ih
  | case5 b s backslash backtick substitution ih =>
    rw [singleQuoteInnards_append, ih, Shell.singleQuoteInnards_cons]
    by_cases apostrophe : b = Ascii.singleQuote
    · subst apostrophe
      rfl
    · have written : ∀ b : UInt8, b ≠ Ascii.singleQuote →
          Dax.singleQuoteInnards (templateByte b) = templateByte b := by decide +kernel
      rw [written b apostrophe, if_neg apostrophe]
      refine (templateInnards.eq_5 b _ backslash backtick ?_).symm
      intro rest dollar brace
      have head := head?_singleQuoteInnards s
      rw [brace] at head
      cases s with
      | nil => simp at head
      | cons c s => exact substitution s dollar (congrArg (· :: s) (Option.some.inj head).symm)

theorem Shows.singleQuoted (s : Text) :
    Shows ("'" ++ Dax.singleQuoteInnards (templateInnards s) ++ "'")
      ("'" ++ Dax.singleQuoteInnards s ++ "'") := by
  intro rest
  have quote : Shows "'" "'" := .plain rfl
  have apart : ¬Meet (Dax.singleQuoteInnards s) ("'" ++ rest) := by
    rintro ⟨_, next⟩
    exact absurd (Option.some.inj next) (by decide)
  rw [singleQuoteInnards_templateInnards, List.append_assoc, List.append_assoc, quote,
    templateValue_innards_append apart, quote, map_append_map, map_append_map]

theorem Shows.join {pieces values : List Text} (shown : List.Forall₂ Shows pieces values) :
    Shows (Text.join " " pieces) (Text.join " " values) := by
  induction shown with
  | nil => exact .nil
  | @cons piece value pieces values first later ih =>
    cases later with
    | nil => simpa [Text.join] using first
    | @cons next _ others _ second more =>
      have blank : Shows " " " " := .plain rfl
      simpa [Text.join, List.intercalate] using first.append (blank.append ih)

theorem templateInnards_of_bare {s : Text} (bare : ∀ b ∈ s, Dax.isBareByte b) :
    templateInnards s = s := by
  induction s with
  | nil => rfl
  | cons b s ih =>
    obtain ⟨_, _, backslash, backtick, dollar, written⟩ := Shell.bare_classes b (bare b (by simp))
    refine (templateInnards.eq_5 b s backslash backtick fun _ same => (dollar same).elim).trans ?_
    rw [written, ih fun c inside => bare c (by simp [inside])]
    rfl

theorem singleQuoteInnards_of_bare {s : Text} (bare : ∀ b ∈ s, Dax.isBareByte b) :
    Dax.singleQuoteInnards s = s := by
  induction s with
  | nil => rfl
  | cons b s ih =>
    have apostrophe : b ≠ Ascii.singleQuote := by
      rintro rfl
      exact absurd (bare Ascii.singleQuote (by simp)) (by decide)
    rw [Shell.singleQuoteInnards_cons, if_neg apostrophe,
      ih fun c inside => bare c (by simp [inside])]
    rfl

end Js

/-- A piece of a template that spells a word of the command string that the template stands for. -/
def Dax.Quotes (piece value : Text) : Prop :=
    ∃ shown, Js.Shows piece shown ∧ Shell.Spells shown value

theorem Dax.Quotes.wordArgument {s : Text} (ordinary : ∀ b ∈ s, Shell.isOrdinary b)
    (some : s ≠ []) :
    Quotes (Dax.wordArgument s) s :=
  ⟨_, .wordArgument ordinary, .wordArgument ordinary some⟩

theorem Dax.Quotes.bare {s : Text} (bare : ∀ b ∈ s, Dax.isBareByte b) (some : s ≠ []) :
    Quotes s s := by
  have same : Dax.wordArgument s = s := by
    clear some
    induction s with
    | nil => rfl
    | cons b s ih =>
      have later : Dax.wordFrom false s = s := ih fun c inside => bare c (by simp [inside])
      have special := (Shell.bare_classes b (bare b (by simp))).2.1
      simp [Dax.wordArgument, Dax.wordFrom, special, later]
  have quotes := Quotes.wordArgument (fun b inside => (Shell.bare_classes b (bare b inside)).1) some
  rwa [same] at quotes

theorem Dax.Quotes.singleQuoted (s : Text) :
    Quotes ("'" ++ Dax.singleQuoteInnards (Js.templateInnards s) ++ "'") s :=
  ⟨_, .singleQuoted s, .singleQuoted s⟩

theorem Dax.Quotes.shown {pieces values : List Text} (quotes : List.Forall₂ Quotes pieces values) :
    ∃ shown, List.Forall₂ Js.Shows pieces shown ∧ List.Forall₂ Shell.Spells shown values := by
  induction quotes with
  | nil => exact ⟨[], .nil, .nil⟩
  | cons first _ ih =>
    obtain ⟨text, shows, spells⟩ := first
    obtain ⟨texts, later, others⟩ := ih
    exact ⟨text :: texts, .cons shows later, .cons spells others⟩

end ShellToDeno
