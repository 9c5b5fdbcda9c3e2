import ShellToDeno.Proofs.Quoting.Words
import ShellToDeno.Js.Comment
import ShellToDeno.Js.Property
import ShellToDeno.Dax.Call
import ShellToDeno.Shell.Quoting

/-!
# Where capital letters may stand

`Text.Spelled words` says of a text that each of its capital letters begins one of some words made
of letters. Texts put together are spelled with the words of their parts, and a text that is cut
keeps its words as long as the cut is not in the middle of one. A function that walks a text, keeps
its letters and writes something plain in place of other bytes (`Text.Carries`) keeps its words as
well.
-/
namespace ShellToDeno

namespace Text

def isCapital (b : UInt8) : Bool := 'A' ≤ b && b ≤ 'Z'

/-- A text without capital letters. -/
def Plain (t : Text) : Prop := ∀ b ∈ t, isCapital b = false

instance (t : Text) : Decidable (Plain t) :=
  decidable_of_iff (t.all fun b => !isCapital b) (by simp [Plain])

/-- Each capital letter of a text begins one of some words. -/
def Spelled (words : List Text) : Text → Prop
  | [] => True
  | b :: rest =>
    (isCapital b = true → ∃ word ∈ words, word.all isLetter = true ∧ word <+: b :: rest) ∧
      Spelled words rest

instance Spelled.decidable (words : List Text) : (t : Text) → Decidable (Spelled words t)
  | [] => .isTrue trivial
  | _ :: rest =>
    have := Spelled.decidable words rest
    inferInstanceAs (Decidable (_ ∧ _))

namespace Plain
variable {s t : Text}

@[simp] theorem nil : Plain [] := by simp [Plain]

@[simp] theorem cons_iff {b : UInt8} : Plain (b :: t) ↔ isCapital b = false ∧ Plain t := by
  simp [Plain]

@[simp] theorem append_iff : Plain (s ++ t) ↔ Plain s ∧ Plain t := by
  simp only [Plain, List.mem_append]
  constructor
  · intro all
    exact ⟨fun b mem => all b (.inl mem), fun b mem => all b (.inr mem)⟩
  · rintro ⟨left, right⟩ b (mem | mem)
    · exact left b mem
    · exact right b mem

theorem append (first : Plain s) (second : Plain t) : Plain (s ++ t) := append_iff.2 ⟨first, second⟩

theorem subset (plain : Plain t) (within : s ⊆ t) : Plain s := fun b mem => plain b (within mem)

theorem drop (plain : Plain t) (n : Nat) : Plain (t.drop n) := plain.subset (List.drop_subset n t)

theorem flatMap {α : Type} {f : α → Text} {xs : List α} (each : ∀ a ∈ xs, Plain (f a)) :
    Plain (xs.flatMap f) := by
  intro b mem
  obtain ⟨a, among, here⟩ := List.mem_flatMap.1 mem
  exact each a among b here

end Plain

namespace Spelled
variable {words more : List Text} {s t : Text}

theorem of_plain (plain : Plain t) : Spelled words t := by
  induction t with
  | nil => trivial
  | cons b t inner =>
    obtain ⟨small, rest⟩ := Plain.cons_iff.1 plain
    refine ⟨fun capital => ?_, inner rest⟩
    rw [small] at capital
    contradiction

theorem plain (spelled : Spelled [] t) : Plain t := by
  induction t with
  | nil => exact .nil
  | cons b t inner =>
    obtain ⟨here, rest⟩ := spelled
    refine Plain.cons_iff.2 ⟨?_, inner rest⟩
    by_contra capital
    obtain ⟨_, none, _⟩ := here (by simpa using capital)
    exact List.not_mem_nil none

theorem mono (spelled : Spelled words t) (within : words ⊆ more) : Spelled more t := by
  induction t with
  | nil => trivial
  | cons b t inner =>
    refine ⟨fun capital => ?_, inner spelled.2⟩
    obtain ⟨word, known, rest⟩ := spelled.1 capital
    exact ⟨word, within known, rest⟩

theorem append (first : Spelled words s) (second : Spelled words t) : Spelled words (s ++ t) := by
  induction s with
  | nil => exact second
  | cons b s inner =>
    refine ⟨fun capital => ?_, inner first.2⟩
    obtain ⟨word, known, letters, starts⟩ := first.1 capital
    exact ⟨word, known, letters, starts.trans (List.prefix_append (b :: s) t)⟩

theorem of_append_right (spelled : Spelled words (s ++ t)) : Spelled words t := by
  induction s with
  | nil => exact spelled
  | cons b s inner => exact inner spelled.2

theorem drop (spelled : Spelled words t) (n : Nat) : Spelled words (t.drop n) := by
  rw [← List.take_append_drop n t] at spelled
  exact spelled.of_append_right

/-- A word does not reach over a byte that is no letter. -/
theorem prefix_of_letters {word : Text} (letters : word.all isLetter = true)
    (stops : t.head?.any isLetter = false) (starts : word <+: s ++ t) : word <+: s := by
  induction word generalizing s with
  | nil => exact List.nil_prefix
  | cons a word inner =>
    rw [List.all_cons, Bool.and_eq_true] at letters
    cases s with
    | nil =>
      obtain ⟨rest, whole⟩ := starts
      rw [List.nil_append] at whole
      simp [← whole, letters.1] at stops
    | cons b s =>
      rw [List.cons_append, List.cons_prefix_cons] at starts
      exact List.cons_prefix_cons.2 ⟨starts.1, inner letters.2 starts.2⟩

/-- What stands before a byte that is no letter. -/
theorem of_append_left (spelled : Spelled words (s ++ t))
    (stops : t.head?.any isLetter = false) : Spelled words s := by
  induction s with
  | nil => trivial
  | cons b s inner =>
    refine ⟨fun capital => ?_, inner spelled.2⟩
    obtain ⟨word, known, letters, starts⟩ := spelled.1 capital
    exact ⟨word, known, letters, prefix_of_letters letters stops starts⟩

theorem flatten {parts : List Text} (each : ∀ t ∈ parts, Spelled words t) :
    Spelled words parts.flatten := by
  induction parts with
  | nil => trivial
  | cons t parts inner =>
    rw [List.forall_mem_cons] at each
    rw [List.flatten_cons]
    exact each.1.append (inner each.2)

theorem join {separator : Text} {parts : List Text} (between : Spelled words separator)
    (each : ∀ t ∈ parts, Spelled words t) : Spelled words (Text.join separator parts) := by
  induction parts with
  | nil => trivial
  | cons t parts inner =>
    rw [List.forall_mem_cons] at each
    cases parts with
    | nil => simpa [Text.join] using each.1
    | cons u parts =>
      have parted : Text.join separator (t :: u :: parts) =
          t ++ (separator ++ Text.join separator (u :: parts)) := by
        simp [Text.join, List.intercalate]
      rw [parted]
      exact each.1.append (between.append (inner each.2))

theorem cutStart? {start rest : Text} (spelled : Spelled words t)
    (cut : Text.cutStart? start t = some rest) : Spelled words rest := by
  rw [Text.cutStart?, Option.ite_none_right_eq_some, Option.some.injEq] at cut
  exact cut.2 ▸ spelled.drop _

theorem cutStart (spelled : Spelled words t) (start : Text) :
    Spelled words (Text.cutStart start t) := by
  rw [Text.cutStart]
  cases found : Text.cutStart? start t with
  | none => exact spelled
  | some rest => exact spelled.cutStart? found

theorem cutEnd? {ending rest : Text} (spelled : Spelled words t)
    (stops : ending.head?.any isLetter = false)
    (cut : Text.cutEnd? ending t = some rest) : Spelled words rest := by
  rw [Text.cutEnd?, Option.ite_none_right_eq_some, Option.some.injEq, List.isSuffixOf_iff_suffix]
    at cut
  obtain ⟨⟨front, rfl⟩, rfl⟩ := cut
  rw [List.length_append, Nat.add_sub_cancel, List.take_left']
  · exact spelled.of_append_left stops
  · rfl

theorem cutEnd (spelled : Spelled words t) {ending : Text}
    (stops : ending.head?.any isLetter = false) : Spelled words (Text.cutEnd ending t) := by
  rw [Text.cutEnd]
  cases found : Text.cutEnd? ending t with
  | none => exact spelled
  | some rest => exact spelled.cutEnd? stops found

end Spelled

/-- The second text is written on a walk through the first: letters are kept, and in place of any
other byte, and of some bytes after it, something plain is written. -/
inductive Carries : Text → Text → Prop
  | nil : Carries [] []
  | keep {b : UInt8} {s t : Text} : Carries s t → Carries (b :: s) (b :: t)
  | write {b : UInt8} {s written t : Text} (passed : Nat) : isLetter b = false → Plain written →
      Carries (s.drop passed) t → Carries (b :: s) (written ++ t)

namespace Carries
variable {s t : Text} {words : List Text}

theorem prefix_of {word : Text} (letters : word.all isLetter = true) (carries : Carries s t)
    (starts : word <+: s) : word <+: t := by
  induction carries generalizing word with
  | nil => exact starts
  | keep _ inner =>
    cases word with
    | nil => exact List.nil_prefix
    | cons a word =>
      rw [List.all_cons, Bool.and_eq_true] at letters
      rw [List.cons_prefix_cons] at starts ⊢
      exact ⟨starts.1, inner letters.2 starts.2⟩
  | write _ other _ _ _ =>
    cases word with
    | nil => exact List.nil_prefix
    | cons a word =>
      rw [List.all_cons, Bool.and_eq_true] at letters
      rw [List.cons_prefix_cons] at starts
      rw [← starts.1, letters.1] at other
      contradiction

theorem spelled (carries : Carries s t) (spelled : Spelled words s) : Spelled words t := by
  induction carries with
  | nil => trivial
  | keep carries inner =>
    refine ⟨fun capital => ?_, inner spelled.2⟩
    obtain ⟨word, known, letters, starts⟩ := spelled.1 capital
    exact ⟨word, known, letters, carries.keep.prefix_of letters starts⟩
  | write passed _ plain _ inner => exact (Spelled.of_plain plain).append (inner (spelled.2.drop _))

theorem plain (carries : Carries s t) (plain : Plain s) : Plain t :=
  (carries.spelled (.of_plain plain)).plain

end Carries

/-- Replacing a piece that starts with no letter by something plain. -/
theorem carries_replaceFrom {piece new : Text} (stops : piece.head?.any isLetter = false)
    (plain : Plain new) (skip : Nat) (t : Text) :
    Carries (t.drop skip) (replaceFrom piece new skip t) := by
  induction t generalizing skip with
  | nil => simpa [replaceFrom] using Carries.nil
  | cons b rest inner =>
    cases skip with
    | succ skip => exact inner skip
    | zero =>
      rw [replaceFrom]
      split
      · rename_i starts
        refine .write _ ?_ plain (inner _)
        cases piece with
        | nil => simp [begins] at starts
        | cons a piece =>
          simp only [begins, List.isPrefixOf, Bool.and_eq_true, beq_iff_eq] at starts
          exact starts.2.1 ▸ stops
      · exact .keep (inner 0)

theorem carries_replaceAll {piece new : Text} (stops : piece.head?.any isLetter = false)
    (plain : Plain new) (t : Text) : Carries t (replaceAll piece new t) :=
  carries_replaceFrom stops plain 0 t

end Text

theorem Js.spelled_commentText {words : List Text} {s : Text} (spelled : Text.Spelled words s) :
    Text.Spelled words (commentText s) :=
  (Text.carries_replaceAll (by decide) (by decide) s).spelled spelled

end ShellToDeno
