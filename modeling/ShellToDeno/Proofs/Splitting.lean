import Mathlib.Data.List.Basic
import ShellToDeno.Text

/-!
# Texts in parts

Splitting a text at a separator, and at a separator of one byte in particular: the parts are free of
it, and joined with it they are the text again.
-/
namespace ShellToDeno.Text

theorem splitFrom_ne_nil (separator : Text) (skip : Nat) (t : Text) :
    splitFrom separator skip t ≠ [] := by
  fun_induction splitFrom separator skip t with
  | case1 => exact List.cons_ne_nil _ _
  | case2 skip b rest ih => exact ih
  | case3 => exact List.cons_ne_nil _ _
  | case4 => exact List.cons_ne_nil _ _
  | case5 => exact List.cons_ne_nil _ _

/-- A part that does not hold the first byte of the separator. -/
theorem splitFrom_append {first : UInt8} {others front back : Text} (absent : first ∉ front) :
    splitFrom (first :: others) 0 (front ++ back) =
      (splitFrom (first :: others) 0 back).modifyHead (front ++ ·) := by
  induction front with
  | nil =>
    rw [List.nil_append]
    cases splitFrom (first :: others) 0 back <;> rfl
  | cons b front ih =>
    obtain ⟨differ, absent⟩ := not_or.1 (mt List.mem_cons.2 absent)
    have other : begins (first :: others) (b :: (front ++ back)) = false := by
      rw [begins, List.isPrefixOf_cons_cons, beq_false_of_ne differ]
      rfl
    rw [List.cons_append, splitFrom, if_neg (by rw [other]; decide), ih absent]
    cases rest : splitFrom (first :: others) 0 back with
    | nil => exact absurd rest (splitFrom_ne_nil _ _ _)
    | cons => rfl

theorem splitOn_dots {front : Text} (absent : Ascii.dot ∉ front) (back : Text) :
    splitOn ".." (front ++ (".." ++ back)) = front :: splitOn ".." back := by
  have here : splitFrom (Ascii.dot :: [Ascii.dot]) 0 (".." ++ back) = [] :: splitOn ".." back := rfl
  have split : splitFrom (Ascii.dot :: [Ascii.dot]) 0 (front ++ (".." ++ back)) = _ :=
    splitFrom_append absent
  refine split.trans ?_
  rw [here, List.modifyHead_cons, List.append_nil]

theorem splitOn_without_dots {t : Text} (absent : Ascii.dot ∉ t) : splitOn ".." t = [t] := by
  have split : splitFrom (Ascii.dot :: [Ascii.dot]) 0 (t ++ []) = _ := splitFrom_append absent
  rw [List.append_nil] at split
  refine split.trans ?_
  rw [splitFrom, List.modifyHead_cons, List.append_nil]

/-- A text without a byte does not hold it. -/
theorem contains_eq_false {b : UInt8} {t : Text} (absent : b ∉ t) : contains t [b] = false := by
  have none : cut? [b] t = none := by
    induction t with
    | nil => rfl
    | cons first rest ih =>
      obtain ⟨differ, absent⟩ := not_or.1 (mt List.mem_cons.2 absent)
      rw [cut?, List.isPrefixOf_cons_cons, beq_false_of_ne differ, ih absent]
      rfl
  rw [contains, none]
  rfl

theorem splitOn_byte (b : UInt8) (t : Text) : splitOn [b] t = List.splitOn b t := by
  rw [splitOn]
  induction t with
  | nil => rfl
  | cons first rest ih =>
    have begins : begins [b] (first :: rest) = (first == b) := by
      rw [Text.begins, List.isPrefixOf_cons_cons, List.isPrefixOf_nil_left, Bool.and_true]
      exact Bool.beq_comm
    rw [List.splitOn_cons_eq_if_modifyHead, ← ih, splitFrom, begins]
    split
    · rfl
    · cases found : splitFrom [b] 0 rest with
      | nil => exact absurd found (splitFrom_ne_nil _ _ _)
      | cons => rfl

theorem not_mem_of_mem_splitOn {b : UInt8} {t part : Text} (member : part ∈ splitOn [b] t) :
    b ∉ part := by
  rw [splitOn_byte] at member
  induction t generalizing part with
  | nil =>
    rw [List.splitOn_nil, List.mem_singleton] at member
    simp [member]
  | cons first rest ih =>
    rw [List.splitOn_cons_eq_if_modifyHead] at member
    split at member
    · rcases List.mem_cons.1 member with rfl | member
      · exact List.not_mem_nil
      · exact ih member
    · next other =>
      cases split : List.splitOn b rest with
      | nil => exact absurd split (List.splitOn_ne_nil _ _)
      | cons head others =>
        rw [split] at ih member
        rcases List.mem_cons.1 member with rfl | member
        · have clear := ih List.mem_cons_self
          intro inside
          rcases List.mem_cons.1 inside with rfl | inside
          · exact other (beq_self_eq_true _)
          · exact clear inside
        · exact ih (List.mem_cons_of_mem _ member)

theorem splitFrom_drop (separator : Text) (skip : Nat) (t : Text) :
    splitFrom separator skip t = splitFrom separator 0 (t.drop skip) := by
  induction skip generalizing t with
  | zero => rfl
  | succ skip ih =>
    cases t with
    | nil => rfl
    | cons b rest => exact ih rest

/-- Nothing is lost between the parts but the separators. -/
theorem join_splitOn (separator t : Text) : join separator (splitOn separator t) = t := by
  rw [splitOn]
  induction length : t.length using Nat.strongRecOn generalizing t with
  | ind n ih =>
    cases t with
    | nil => simp [splitFrom, join]
    | cons b rest =>
      rw [List.length_cons] at length
      rw [splitFrom]
      split
      · next here =>
        obtain ⟨first, others, rfl⟩ : ∃ first others, separator = first :: others := by
          cases separator with
          | nil => cases here
          | cons first others => exact ⟨first, others, rfl⟩
        obtain ⟨after, whole⟩ := List.isPrefixOf_iff_prefix.1 (Bool.and_eq_true_iff.1 here).2
        rw [List.cons_append, List.cons.injEq] at whole
        obtain ⟨rfl, rfl⟩ := whole
        rw [List.length_append] at length
        have shorter := ih after.length (by omega) after rfl
        rw [splitFrom_drop, List.length_cons, Nat.add_sub_cancel, List.drop_left]
        cases parts : splitFrom (first :: others) 0 after with
        | nil => exact absurd parts (splitFrom_ne_nil _ _ _)
        | cons part more =>
          rw [parts] at shorter
          rw [join, List.intercalate_cons_cons]
          exact congrArg (first :: others ++ ·) shorter
      · have shorter := ih rest.length (by omega) rest rfl
        cases parts : splitFrom separator 0 rest with
        | nil => exact absurd parts (splitFrom_ne_nil _ _ _)
        | cons part more =>
          rw [parts] at shorter
          cases more with
          | nil =>
            rw [join, List.intercalate_singleton] at shorter ⊢
            rw [shorter]
          | cons next more =>
            rw [join, List.intercalate_cons_cons] at shorter ⊢
            exact congrArg (b :: ·) shorter

end ShellToDeno.Text
