import Mathlib.Data.List.Infix
import ShellToDeno.Compile.Redirect
import ShellToDeno.Compile.Words
import ShellToDeno.Proofs.Fragment.Query

/-!
# Block comments

What could not be compiled is quoted in block comments that ask for a review. A text is quoted with
a blank between each star and the slash after it. Then no comment ends in it
(`Js.keepsOpen_commentText`), and nothing else is changed (`Js.commentText_eq_iff`). The words
around a quoted text do not complete a terminator either, so a comment ends where it is closed
(`Compile.block_comments_end_where_closed`).
-/
namespace ShellToDeno

namespace Js

/-- What ends a block comment. -/
def terminator : Text := "*/"

/-- A text in which no block comment ends. -/
def KeepsOpen (t : Text) : Prop := ¬terminator <:+: t

instance : DecidablePred KeepsOpen := fun t => inferInstanceAs (Decidable ¬terminator <:+: t)

/-- Blanks are put between stars and the slashes after them. -/
inductive Spaced : Text → Text → Prop where
  | nil : Spaced [] []
  | keep {s t : Text} (b : UInt8) (rest : Spaced s t) : Spaced (b :: s) (b :: t)
  | part {s t : Text} (rest : Spaced s t) :
    Spaced (Ascii.star :: Ascii.slash :: s) (Ascii.star :: ' ' :: Ascii.slash :: t)

/-- The first terminator of a text comes after a given front. -/
def FirstTerminator (front t : Text) : Prop :=
  front ++ terminator <+: t ∧ ∀ other, other ++ terminator <+: t → front.length ≤ other.length

/-- One whole block comment: it is opened, and what closes it is the first terminator from its start
on, whatever comes next. -/
def IsComment (comment : Text) : Prop :=
  ∃ front, comment = front ++ terminator ∧ "/*" <+: front ∧
    ∀ rest, FirstTerminator front (comment ++ rest)

/-- A whole comment that quotes some texts. -/
structure Reviews (comment : Text) (texts : List Text) : Prop where
  whole : IsComment comment
  shows : ∀ s ∈ texts, commentText s <:+: comment

theorem terminator_prefix_cons {b : UInt8} {t : Text} :
    terminator <+: b :: t ↔ b = Ascii.star ∧ t.head? = some Ascii.slash := by
  rw [show terminator = [Ascii.star, Ascii.slash] from rfl, List.cons_prefix_cons, eq_comm]
  cases t with
  | nil => simp
  | cons c t => simp [List.cons_prefix_cons, eq_comm]

theorem keepsOpen_cons {b : UInt8} {t : Text} :
    KeepsOpen (b :: t) ↔ ¬(b = Ascii.star ∧ t.head? = some Ascii.slash) ∧ KeepsOpen t := by
  rw [KeepsOpen, List.infix_cons_iff, not_or, terminator_prefix_cons]
  rfl

/-- Texts can be joined unless a star at the end of one meets a slash. -/
theorem KeepsOpen.append {s t : Text} (first : KeepsOpen s) (second : KeepsOpen t)
    (seam : s.getLast? = some Ascii.star → t.head? ≠ some Ascii.slash) : KeepsOpen (s ++ t) := by
  induction s with
  | nil => exact second
  | cons b s ih =>
    obtain ⟨here, later⟩ := keepsOpen_cons.1 first
    cases s with
    | nil =>
      refine keepsOpen_cons.2 ⟨?_, second⟩
      rintro ⟨rfl, slash⟩
      exact seam rfl slash
    | cons c s =>
      rw [List.getLast?_cons_cons] at seam
      exact keepsOpen_cons.2 ⟨here, ih later seam⟩

/-! Quoted texts -/

theorem commentText_keep {b : UInt8} {rest : Text}
    (other : ¬(b = Ascii.star ∧ rest.head? = some Ascii.slash)) :
    commentText (b :: rest) = b :: commentText rest := by
  rw [← terminator_prefix_cons, ← List.isPrefixOf_iff_prefix] at other
  rw [commentText, Text.replaceAll, Text.replaceFrom, if_neg]
  · rfl
  · rw [Text.begins, Bool.and_eq_true]
    exact fun both => other both.2

theorem commentText_part (rest : Text) :
    commentText (Ascii.star :: Ascii.slash :: rest) =
    Ascii.star :: ' ' :: Ascii.slash :: commentText rest :=
  rfl

/-- Induction along the replacement: a byte is kept, or a star and a slash are parted. -/
theorem quoteInduction {P : Text → Prop} (nil : P [])
    (keep : ∀ b s, ¬(b = Ascii.star ∧ s.head? = some Ascii.slash) → P s → P (b :: s))
    (part : ∀ s, P s → P (Ascii.star :: Ascii.slash :: s)) (s : Text) : P s := by
  induction length : s.length using Nat.strongRecOn generalizing s with
  | ind size ih =>
  cases s with
  | nil => exact nil
  | cons b s =>
    rw [List.length_cons] at length
    by_cases here : b = Ascii.star ∧ s.head? = some Ascii.slash
    · obtain ⟨rfl, slash⟩ := here
      obtain ⟨rest, rfl⟩ := List.head?_eq_some_iff.1 slash
      rw [List.length_cons] at length
      exact part rest (ih _ (by omega) rest rfl)
    · exact keep b s here (ih _ (by omega) s rfl)

theorem spaced_commentText (s : Text) : Spaced s (commentText s) := by
  induction s using quoteInduction with
  | nil => exact .nil
  | keep b s here ih =>
    rw [commentText_keep here]
    exact .keep b ih
  | part s ih => exact .part ih

theorem head?_commentText (s : Text) : (commentText s).head? = s.head? := by
  induction s using quoteInduction with
  | nil => rfl
  | keep b s here ih =>
    rw [commentText_keep here]
    rfl
  | part s ih => rfl

theorem keepsOpen_commentText (s : Text) : KeepsOpen (commentText s) := by
  induction s using quoteInduction with
  | nil => decide
  | keep b s here ih =>
    rw [commentText_keep here, keepsOpen_cons, head?_commentText]
    exact ⟨here, ih⟩
  | part s ih =>
    rw [commentText_part, keepsOpen_cons, keepsOpen_cons, keepsOpen_cons]
    simp +decide [ih]

/-- Quoting parts every star from a slash, and nothing else. -/
theorem commentText_eq_iff {s t : Text} : t = commentText s ↔ Spaced s t ∧ KeepsOpen t := by
  constructor
  · rintro rfl
    exact ⟨spaced_commentText s, keepsOpen_commentText s⟩
  · rintro ⟨spaced, keepsOpen⟩
    induction spaced with
    | nil => rfl
    | @keep s t b _ ih =>
      obtain ⟨here, later⟩ := keepsOpen_cons.1 keepsOpen
      have same := ih later
      rw [commentText_keep, ← same]
      rwa [same, head?_commentText] at here
    | @part s t _ ih =>
      have later : KeepsOpen (Ascii.slash :: t) :=
        (keepsOpen_cons.1 (keepsOpen_cons.1 keepsOpen).2).2
      rw [ih (keepsOpen_cons.1 later).2]
      rfl

example : commentText "**//*/" = "** //* /" := by decide

/-! Comments around them -/

/-- A terminator after a text that keeps comments open is the first one: none fits in before it, and
none takes its star. -/
theorem KeepsOpen.firstTerminator {front : Text} (keepsOpen : KeepsOpen front) (rest : Text) :
    FirstTerminator front (front ++ terminator ++ rest) := by
  refine ⟨List.prefix_append _ _, fun other isPrefix => ?_⟩
  rw [List.append_assoc] at isPrefix
  induction front generalizing other with
  | nil => exact Nat.zero_le _
  | cons b front ih =>
    obtain ⟨here, later⟩ := keepsOpen_cons.1 keepsOpen
    cases other with
    | nil =>
      obtain ⟨star, slash⟩ := terminator_prefix_cons.1 isPrefix
      cases front with
      | nil => cases slash
      | cons c front => exact absurd ⟨star, slash⟩ here
    | cons c other => exact Nat.succ_le_succ (ih later other (List.cons_prefix_cons.1 isPrefix).2)

/-- A comment that is not closed yet, up to a blank, with the texts that it quotes. -/
structure Opens (front : Text) (texts : List Text) : Prop where
  opened : "/*" <+: front
  keepsOpen : KeepsOpen front
  blank : front.getLast? = some (' ' : Char).toUInt8
  shows : ∀ s ∈ texts, commentText s <:+: front

/-- Words that can follow a quoted text in a comment. -/
def IsTrail (words : Text) : Prop :=
  KeepsOpen words ∧ words.head? ≠ some Ascii.slash ∧ words.getLast? = some (' ' : Char).toUInt8

instance : DecidablePred IsTrail := fun _ => inferInstanceAs (Decidable (_ ∧ _ ∧ _))

/-- A comment goes on with a text and some words after it. -/
theorem Opens.quote {front words : Text} {texts : List Text} (opens : Opens front texts) (s : Text)
    (trail : IsTrail words) : Opens (front ++ commentText s ++ words) (texts ++ [s]) where
  opened := (opens.opened.trans (List.prefix_append _ _)).trans (List.prefix_append _ _)
  keepsOpen := by
    refine (opens.keepsOpen.append (keepsOpen_commentText s) fun star => ?_).append trail.1
      fun _ => trail.2.1
    rw [opens.blank] at star
    cases star
  blank := by
    rw [List.getLast?_append, trail.2.2]
    rfl
  shows := by
    rw [List.forall_mem_append, List.forall_mem_singleton, List.append_assoc]
    exact ⟨fun s member => (opens.shows s member).trans (List.prefix_append _ _).isInfix,
      ⟨front, words, List.append_assoc ..⟩⟩

theorem Opens.reviews {front : Text} {texts : List Text} (opens : Opens front texts) :
    Reviews (front ++ terminator) texts where
  whole := ⟨front, rfl, opens.opened, opens.keepsOpen.firstTerminator⟩
  shows s member := (opens.shows s member).trans (List.prefix_append _ _).isInfix

theorem opens_fixme : Opens "/* FIXME: " [] :=
  ⟨by decide, by decide, by decide, List.forall_mem_nil _⟩

theorem opens_descriptor : Opens "/* FIXME: this read from file descriptor " [] :=
  ⟨by decide, by decide +kernel, by decide +kernel, List.forall_mem_nil _⟩

end Js

namespace Compile

open Js

/-- Each comment that quotes texts of a script is closed by the first terminator from its start on:
a marker, the reviews of an expansion and of a redirection, and the warning about a descriptor. -/
theorem block_comments_end_where_closed :
    (∀ s t, t = commentText s ↔ Spaced s t ∧ KeepsOpen t) ∧
    (∀ s, ∃ comment, Reviews comment [s] ∧ marker s = comment ++ "0") ∧
    (∀ (s : CompileState) (n : Node) (access : Text), ∃ comment entry, Reviews comment [n.text] ∧
      run s (reviewExpansion n access) =
        run { s with log := entry :: s.log } (interpolation (access ++ comment))) ∧
    (∀ follower followed : PlacedSink, ∃ comment,
      Reviews comment [follower.clause, followed.clause] ∧
      follower.review followed = if follower.place < followed.place then " " ++ comment else []) ∧
    (∀ descriptor, ∃ comment, Reviews comment [descriptor] ∧
      descriptorWarning descriptor = " " ++ comment) := by
  refine ⟨fun s t => commentText_eq_iff, fun s => ?_, fun s n access => ?_,
    fun follower followed => ?_, fun descriptor => ?_⟩
  · have trail : IsTrail " " := by decide
    refine ⟨_, (opens_fixme.quote s trail).reviews, ?_⟩
    rw [marker]
    simp only [List.append_assoc]
    rfl
  · have trail : IsTrail " " := by decide
    refine ⟨_, ⟨.warn, "unsupported parameter expansion", [("text", n.text)]⟩,
      (opens_fixme.quote n.text trail).reviews, ?_⟩
    rw [reviewExpansion, run_bind]
    simp only [List.append_assoc]
    rfl
  · have middle : IsTrail " comes before " := by decide
    have trail : IsTrail ", so bash leaves that stream where it was " := by decide +kernel
    refine ⟨_, ((opens_fixme.quote follower.clause middle).quote followed.clause trail).reviews, ?_⟩
    rw [PlacedSink.review]
    simp only [List.append_assoc]
    rfl
  · have trail : IsTrail " but only reading stdin is translated " := by decide +kernel
    refine ⟨_, (opens_descriptor.quote descriptor trail).reviews, ?_⟩
    rw [descriptorWarning]
    simp only [List.append_assoc]
    rfl

end Compile

end ShellToDeno
