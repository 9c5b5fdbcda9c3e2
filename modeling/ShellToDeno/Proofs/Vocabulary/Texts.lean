import ShellToDeno.Proofs.Integers
import ShellToDeno.Proofs.Quoting.Literals
import ShellToDeno.Proofs.Vocabulary.Spelling
import ShellToDeno.Braces.Range

/-!
# Functions of texts that write no capital letters of their own
-/
namespace ShellToDeno

open Text

namespace Text

theorem isCapital_iff {b : UInt8} : isCapital b = true ↔ 65 ≤ b.toNat ∧ b.toNat ≤ 90 := by
  simp only [isCapital, Bool.and_eq_true, decide_eq_true_eq, UInt8.le_iff_toNat_le]
  exact .rfl

theorem isLetter_iff {b : UInt8} :
    isLetter b = true ↔ 97 ≤ b.toNat ∧ b.toNat ≤ 122 ∨ 65 ≤ b.toNat ∧ b.toNat ≤ 90 := by
  simp only [isLetter, Bool.or_eq_true, Bool.and_eq_true, decide_eq_true_eq, UInt8.le_iff_toNat_le]
  exact .rfl

/-- What is to hold of every letter can be decided. -/
theorem forall_isLetter {p : UInt8 → Prop} (small : ∀ k : Fin 26, p (.ofNat (97 + k)))
    (capital : ∀ k : Fin 26, p (.ofNat (65 + k))) : ∀ b, isLetter b = true → p b := by
  intro b letter
  rcases isLetter_iff.1 letter with ⟨low, high⟩ | ⟨low, high⟩
  · have here := small ⟨b.toNat - 97, by omega⟩
    rwa [Nat.add_sub_cancel' low, UInt8.ofNat_toNat] at here
  · have here := capital ⟨b.toNat - 65, by omega⟩
    rwa [Nat.add_sub_cancel' low, UInt8.ofNat_toNat] at here

theorem isCapital_eq_false_iff {b : UInt8} :
    isCapital b = false ↔ b.toNat < 65 ∨ 90 < b.toNat := by
  rw [← Bool.not_eq_true, isCapital_iff]
  omega

theorem isLetter_eq_false_iff {b : UInt8} :
    isLetter b = false ↔ ¬(97 ≤ b.toNat ∧ b.toNat ≤ 122 ∨ 65 ≤ b.toNat ∧ b.toNat ≤ 90) := by
  rw [← Bool.not_eq_true, isLetter_iff]

end Text

namespace Utf8

theorem mem_encode {c : Char} {b : UInt8} (mem : b ∈ encode c) :
    b.toNat = c.toNat ∨ 128 ≤ b.toNat := by
  have high (n k : Nat) (low : n + k < 256) (above : 128 ≤ k) :
      128 ≤ (UInt8.ofNat (n + k)).toNat := by
    rw [UInt8.toNat_ofNat', Nat.mod_eq_of_lt low]
    omega
  simp only [encode, String.utf8EncodeChar] at mem
  have code : c.val.toNat = c.toNat := rfl
  rw [code] at mem
  split at mem
  · rename_i small
    rw [List.mem_singleton] at mem
    left
    rw [mem, UInt8.toNat_ofNat', Nat.mod_eq_of_lt (by omega)]
  · right
    split at mem
    · simp only [List.mem_cons, List.not_mem_nil, or_false] at mem
      rcases mem with rfl | rfl
      all_goals exact high _ _ (by omega) (by omega)
    · split at mem
      · simp only [List.mem_cons, List.not_mem_nil, or_false] at mem
        rcases mem with rfl | rfl | rfl
        all_goals exact high _ _ (by omega) (by omega)
      · simp only [List.mem_cons, List.not_mem_nil, or_false] at mem
        rcases mem with rfl | rfl | rfl | rfl
        all_goals exact high _ _ (by omega) (by omega)

theorem plain_encode {c : Char} (other : c.toNat < 65 ∨ 90 < c.toNat) : Plain (encode c) := by
  intro b mem
  rw [isCapital_eq_false_iff]
  rcases mem_encode mem with same | high <;> omega

theorem toNat_ofNat_of_isValidChar {n : Nat} (valid : n.isValidChar) :
    (Char.ofNat n).toNat = n := by
  rw [Char.ofNat, dif_pos valid]
  rfl

/-- A code that is no character gives the character zero. -/
theorem toNat_ofNat_cases (n : Nat) : (Char.ofNat n).toNat = n ∨ (Char.ofNat n).toNat = 0 := by
  by_cases valid : n.isValidChar
  · exact .inl (toNat_ofNat_of_isValidChar valid)
  · right
    simp [Char.ofNat, valid, Char.toNat]

theorem next?_ascii {b : UInt8} (small : b.toNat < 128) (rest : Text) :
    next? (b :: rest) = some (Char.ofNat b.toNat, rest) := by
  rw [next?.eq_def]
  exact if_pos (UInt8.lt_iff_toNat_lt.2 small)

theorem toNat_of_next? {b : UInt8} {rest after : Text} {c : Char}
    (found : next? (b :: rest) = some (c, after)) :
    b.toNat < 128 ∧ c = Char.ofNat b.toNat ∨ 128 ≤ c.toNat ∨ c.toNat = 0 := by
  by_cases small : b.toNat < 128
  · rw [next?_ascii small] at found
    simp only [Option.some.injEq, Prod.mk.injEq] at found
    exact .inl ⟨small, found.1.symm⟩
  · right
    have wide (n : Nat) (high : 128 ≤ n) : 128 ≤ (Char.ofNat n).toNat ∨
        (Char.ofNat n).toNat = 0 := by
      rcases toNat_ofNat_cases n with same | zero
      · exact .inl (same.symm ▸ high)
      · exact .inr zero
    rw [next?.eq_def] at found
    repeat' split at found
    all_goals
      simp only [reduceCtorEq, Option.some.injEq, Prod.mk.injEq, Option.ite_none_right_eq_some,
        List.cons.injEq, Bool.and_eq_true, decide_eq_true_eq, beq_iff_eq, UInt8.le_iff_toNat_le,
        UInt8.lt_iff_toNat_lt, ← UInt8.toNat_inj, UInt8.reduceToNat] at *
    all_goals first
      | omega
      | (rw [← found.1]; exact wide _ (by simp only [low]; omega))
      | (rw [← found.2.1]; exact wide _ (by simp only [low]; omega))

theorem isLetter_of_next?_none {b : UInt8} {rest : Text} (none : next? (b :: rest) = none) :
    128 ≤ b.toNat := by
  by_contra small
  rw [next?_ascii (by omega)] at none
  contradiction

theorem utf8Size_of_isLetter : ∀ b, isLetter b = true → (Char.ofNat b.toNat).utf8Size = 1 := by
  refine forall_isLetter ?_ ?_ <;> decide

/-- Writing a text anew piece by piece, letters as they are and nothing capital for the rest. -/
theorem carries_piecesFrom {f : Piece → Text}
    (kept : ∀ b, isLetter b = true → f (.char (Char.ofNat b.toNat)) = [b])
    (other : ∀ c, c.toNat < 65 ∨ 90 < c.toNat → Plain (f (.char c)))
    (stray : ∀ b, 128 ≤ b.toNat → Plain (f (.stray b))) (skip : Nat) (t : Text) :
    Carries (t.drop skip) ((piecesFrom skip t).flatMap f) := by
  induction t generalizing skip with
  | nil => simpa [piecesFrom] using Carries.nil
  | cons b rest inner =>
    cases skip with
    | succ skip => exact inner skip
    | zero =>
      rw [piecesFrom]
      cases found : next? (b :: rest) with
      | none =>
        have high := isLetter_of_next?_none found
        refine .write 0 ?_ (stray b high) (inner 0)
        rw [isLetter_eq_false_iff]
        omega
      | some entry =>
        obtain ⟨c, after⟩ := entry
        simp only [List.flatMap_cons]
        by_cases letter : isLetter b = true
        · have small := isLetter_iff.1 letter
          rw [next?_ascii (by omega)] at found
          simp only [Option.some.injEq, Prod.mk.injEq] at found
          rw [← found.1, kept b letter, utf8Size_of_isLetter b letter]
          exact .keep (inner 0)
        · have none := isLetter_eq_false_iff.1 (Bool.eq_false_iff.2 letter)
          refine .write _ (Bool.eq_false_iff.2 letter) (other c ?_) (inner _)
          rcases toNat_of_next? found with ⟨_, same⟩ | wide | zero
          · rcases toNat_ofNat_cases b.toNat with code | code <;> rw [same, code] <;> omega
          · omega
          · omega

theorem carries_bytes (t : Text) : Carries t ((pieces t).flatMap Piece.bytes) := by
  refine carries_piecesFrom ?_ (fun c other => plain_encode other) ?_ 0 t
  · refine forall_isLetter ?_ ?_ <;> decide
  · intro b high
    simp only [Piece.bytes, Plain.cons_iff, Plain.nil, and_true, isCapital_eq_false_iff]
    omega

theorem isLetter_of_blank {p : Piece} (isBlank : blank p = true) :
    ∀ b ∈ p.bytes, isLetter b = false := by
  intro b mem
  cases p with
  | stray _ => simp [blank] at isBlank
  | char c =>
    rw [isLetter_eq_false_iff]
    simp only [blank, Utf8.isBlank, Bool.or_eq_true, Bool.and_eq_true, decide_eq_true_eq,
      beq_iff_eq]
      at isBlank
    rcases mem_encode mem with same | high <;> omega

/-- White space at the ends cuts no word. -/
theorem spelled_trim {words : List Text} {t : Text} (spelled : Spelled words t) :
    Spelled words (trim t) := by
  have whole := (carries_bytes t).spelled spelled
  rw [trim]
  generalize pieces t = ps at whole
  have front : ps = ps.takeWhile blank ++ ps.dropWhile blank := List.takeWhile_append_dropWhile.symm
  generalize ps.dropWhile blank = qs at front
  have back : qs = (qs.reverse.dropWhile blank).reverse ++
      (qs.reverse.takeWhile blank).reverse := by
    rw [← List.reverse_append, List.takeWhile_append_dropWhile, List.reverse_reverse]
  rw [front, List.flatMap_append] at whole
  rw [back, List.flatMap_append] at whole
  refine whole.of_append_right.of_append_left ?_
  rw [Option.any_eq_false]
  intro b first
  obtain ⟨p, among, here⟩ := List.mem_flatMap.1 (List.mem_of_head? first)
  rw [List.mem_reverse] at among
  exact isLetter_of_blank (List.all_eq_true.1 List.all_takeWhile p among) b here

end Utf8

namespace Js

theorem plain_hexByte (n : Nat) : Plain (hexByte n) := by
  have digit : ∀ k : Fin 16, isCapital (hexDigit k) = false := by decide
  have first := digit ⟨n / 16 % 16, Nat.mod_lt _ (by omega)⟩
  have second := digit ⟨n % 16, Nat.mod_lt _ (by omega)⟩
  simp [hexByte, first, second]

theorem plain_quotedChar {c : Char} (other : c.toNat < 65 ∨ 90 < c.toNat) :
    Plain (quotedChar c) := by
  unfold quotedChar
  split
  on_goal 10 =>
    split
    · exact .append (by decide) (plain_hexByte _)
    · exact Utf8.plain_encode other
  all_goals decide

/-- A string literal around a text. -/
theorem spelled_stringLiteral {words : List Text} {s : Text} (spelled : Spelled words s) :
    Spelled words (stringLiteral s) := by
  have quote : Spelled words "\"" := .of_plain (by decide)
  have carries : Carries s ((Utf8.pieces s).flatMap quotedPiece) := by
    refine Utf8.carries_piecesFrom ?_ (fun c other => plain_quotedChar other) ?_ 0 s
    · refine forall_isLetter ?_ ?_ <;> decide
    · intro b _
      exact (by decide : Plain Utf8.replacement)
  exact (quote.append (carries.spelled spelled)).append quote

theorem spelled_propertyAccess {words : List Text} {key : Text} (spelled : Spelled words key) :
    Spelled words (propertyAccess key) := by
  rw [propertyAccess]
  split
  · exact .append (.of_plain (by decide)) spelled
  · exact .append (.append (.of_plain (by decide)) (spelled_stringLiteral spelled))
      (.of_plain (by decide))

theorem plain_identifierChar {c : Char} (other : c.toNat < 65 ∨ 90 < c.toNat) :
    Plain (identifierChar (.char c)) := by
  rw [identifierChar]
  split
  · rename_i ascii
    simp only [Bool.and_eq_true, decide_eq_true_eq] at ascii
    have same : c.toUInt8.toNat = c.toNat := by
      rw [Char.toUInt8, UInt32.toNat_toUInt8]
      exact Nat.mod_eq_of_lt (by have := ascii.1; rw [Char.toNat] at this; omega)
    simp only [Plain.cons_iff, Plain.nil, and_true, isCapital_eq_false_iff]
    omega
  · decide

theorem plain_started (flat : Text) : Plain flat → Plain (match flat with
    | [] => "_"
    | b :: _ => if isDigit b then "_" ++ flat else flat) := by
  intro plain
  have underscore : Plain "_" := by decide
  split
  · exact underscore
  · split
    · exact underscore.append plain
    · exact plain

theorem plain_identifier {name : Text} (plain : Plain name) : Plain (identifier name) := by
  have underscore : Plain "_" := by decide
  have flat : Plain ((Utf8.pieces name).flatMap identifierChar) := by
    refine (Utf8.carries_piecesFrom ?_ ?_ (fun _ _ => underscore) 0 name).plain plain
    · refine forall_isLetter ?_ ?_ <;> decide
    · exact fun c other => plain_identifierChar other
  unfold identifier
  extract_lets _ first
  split
  · exact plain_started _ flat
  · exact underscore.append (plain_started _ flat)

theorem plain_templateByte {b : UInt8} (small : isCapital b = false) : Plain (templateByte b) := by
  rw [templateByte]
  split
  · decide
  · split
    · exact .append (by decide) (plain_hexByte _)
    · simpa using small

theorem plain_templateInnards {t : Text} (plain : Plain t) : Plain (templateInnards t) := by
  fun_induction templateInnards t with
  | case1 => exact .nil
  | case2 rest inner => exact .append (by decide) (inner (Plain.cons_iff.1 plain).2)
  | case3 rest inner => exact .append (by decide) (inner (Plain.cons_iff.1 plain).2)
  | case4 rest inner =>
    simp only [Plain.cons_iff] at plain
    exact .append (by decide) (inner plain.2.2)
  | case5 b rest _ _ _ inner =>
    rw [Plain.cons_iff] at plain
    exact .append (plain_templateByte plain.1) (inner plain.2)

end Js

theorem Dax.plain_singleQuoteInnards {s : Text} (plain : Plain s) :
    Plain (Dax.singleQuoteInnards s) :=
  (carries_replaceAll (by decide) (by decide) s).plain plain

theorem Dax.plain_wordFrom {s : Text} (plain : Plain s) (quoted : Bool) :
    Plain (Dax.wordFrom quoted s) := by
  have quote : Plain "\"" := by decide
  induction s generalizing quoted with
  | nil => cases quoted <;> simp [Dax.wordFrom, quote]
  | cons b rest inner =>
    rw [Plain.cons_iff] at plain
    rw [Dax.wordFrom]
    split <;> cases quoted <;> simp [quote, plain.1, inner plain.2]

theorem Shell.unescapeWord_subset (t : Text) : Shell.unescapeWord t ⊆ t := by
  fun_induction Shell.unescapeWord t with
  | case1 => exact List.Subset.refl _
  | case2 rest inner => exact List.subset_cons_of_subset _ (List.subset_cons_of_subset _ inner)
  | case3 b rest _ inner => exact List.subset_cons_of_subset _ (List.cons_subset_cons b inner)
  | case4 b rest _ _ inner => exact List.cons_subset_cons b inner

theorem Shell.unescapeDoubleQuoted_subset (t : Text) : Shell.unescapeDoubleQuoted t ⊆ t := by
  fun_induction Shell.unescapeDoubleQuoted t with
  | case1 => exact List.Subset.refl _
  | case2 b rest _ inner => exact List.subset_cons_of_subset _ (List.cons_subset_cons b inner)
  | case3 _ rest _ _ inner =>
    exact List.subset_cons_of_subset _ (List.subset_cons_of_subset _ inner)
  | case4 b rest _ _ inner => exact List.cons_subset_cons _ inner
  | case5 b rest _ inner => exact List.cons_subset_cons b inner

namespace Text

theorem plain_ofNat (n : Nat) : Plain (ofNat n) := by
  rw [ofNat_eq]
  refine .flatMap fun c mem => Utf8.plain_encode (.inl ?_)
  have digit := Nat.isDigit_of_mem_toDigits (by omega) (by omega) mem
  simp only [Char.isDigit, Bool.and_eq_true, decide_eq_true_eq, UInt32.le_iff_toNat_le] at digit
  have last := digit.2
  change c.toNat ≤ 57 at last
  omega

theorem plain_ofInt (i : Int) : Plain (ofInt i) := by
  cases i with
  | ofNat n => exact plain_ofNat n
  | negSucc n => exact .append (by decide) (plain_ofNat _)

theorem subset_of_cut? {piece t before after : Text} (cut : cut? piece t = some (before, after)) :
    before ⊆ t ∧ after ⊆ t := by
  induction t generalizing before with
  | nil =>
    simp only [cut?, Option.ite_none_right_eq_some, Option.some.injEq, Prod.mk.injEq] at cut
    obtain ⟨_, rfl, rfl⟩ := cut
    exact ⟨List.Subset.refl _, List.Subset.refl _⟩
  | cons b rest inner =>
    rw [cut?] at cut
    split at cut
    · simp only [Option.some.injEq, Prod.mk.injEq] at cut
      obtain ⟨rfl, rfl⟩ := cut
      exact ⟨List.nil_subset _, List.drop_subset _ _⟩
    · simp only [Option.map_eq_some_iff, Prod.exists, Prod.mk.injEq] at cut
      obtain ⟨first, second, found, rfl, rfl⟩ := cut
      obtain ⟨left, right⟩ := inner found
      exact ⟨List.cons_subset_cons b left, List.subset_cons_of_subset b right⟩

theorem splitFrom_subset {separator part t : Text} {skip : Nat}
    (mem : part ∈ splitFrom separator skip t) : part ⊆ t := by
  induction t generalizing skip part with
  | nil =>
    rw [splitFrom, List.mem_singleton] at mem
    exact mem ▸ List.Subset.refl _
  | cons b rest inner =>
    cases skip with
    | succ skip => exact List.subset_cons_of_subset b (inner mem)
    | zero =>
      rw [splitFrom] at mem
      split at mem
      · rcases List.mem_cons.1 mem with rfl | later
        · exact List.nil_subset _
        · exact List.subset_cons_of_subset b (inner later)
      · cases found : splitFrom separator 0 rest with
        | nil =>
          simp only [found, List.mem_singleton] at mem
          exact mem ▸ List.cons_subset_cons b (List.nil_subset _)
        | cons first others =>
          simp only [found] at mem
          rcases List.mem_cons.1 mem with rfl | later
          · exact List.cons_subset_cons b (inner (found ▸ List.mem_cons_self))
          · exact List.subset_cons_of_subset b (inner (found ▸ List.mem_cons_of_mem _ later))

theorem slice?_subset {t piece : Text} {start stop : Int}
    (found : slice? t start stop = some piece) :
    piece ⊆ t := by
  rw [slice?, Option.ite_none_right_eq_some, Option.some.injEq] at found
  exact found.2 ▸ List.Subset.trans (List.take_subset _ _) (List.drop_subset _ _)

end Text

namespace Braces

theorem Range.plain_pad (width : Nat) (i : Int) : Plain (Range.pad width i) := by
  have zeros (n : Nat) : Plain (List.replicate n ('0' : UInt8)) := by
    intro b mem
    rw [List.eq_of_mem_replicate mem]
    decide
  rw [Range.pad]
  split
  · exact plain_ofInt i
  · dsimp only
    split
    · simp only [Plain.append_iff]
      exact ⟨⟨by decide, zeros _⟩, plain_ofNat _⟩
    · exact .append (zeros _) (plain_ofNat _)

theorem body?_subset {text body : Text} (found : body? text = some body) : body ⊆ text := by
  rw [body?.eq_def] at found
  split at found
  · rw [cutEnd?, Option.ite_none_right_eq_some, Option.some.injEq] at found
    exact List.subset_cons_of_subset _ (found.2 ▸ List.take_subset _ _)
  · cases found

theorem plain_expand {text : Text} {expansion : Expansion} (expanded : expand text = .ok expansion)
    (plain : Plain text) : ∀ t ∈ expansion.texts, Plain t := by
  rw [expand] at expanded
  split at expanded
  · cases expanded
    simpa [Expansion.texts] using plain
  next body found =>
  have inside : Plain body := plain.subset (body?_subset found)
  split at expanded
  · cases expanded
    exact fun t mem => inside.subset (splitFrom_subset mem)
  split at expanded
  · cases expanded
    simpa [Expansion.texts] using plain
  · cases expanded
  · next ranged =>
    cases expanded
    obtain ⟨range, _, valued⟩ := Option.bind_eq_some_iff.1 ranged
    simp only [Range.values?, Option.bind_eq_bind, Option.bind_eq_some_iff, Option.pure_def,
      Option.some.injEq] at valued
    obtain ⟨_, _, _, _, _, _, rfl⟩ := valued
    intro t mem
    obtain ⟨i, _, rfl⟩ := List.mem_map.1 mem
    exact Range.plain_pad _ i

end Braces

end ShellToDeno
