import ShellToDeno.Proofs.Vocabulary.Texts

/-!
# Characters of a text

A text is valid UTF-8 if and only if it is written in characters (`Utf8.isValid_iff`). Reading a
character undoes writing one and the other way round, because both follow the table of the encoding
(`Utf8.Encodes`). Cutting off the quotes of a string and resolving the escapes of an ANSI-C string
keep a text valid.
-/
namespace ShellToDeno.Utf8

/-- The bytes of a character with a given code. -/
inductive Encodes : Text → Nat → Prop where
  | one {a : UInt8} {n : Nat} (first : a.toNat = n) (most : n < 0x80) : Encodes [a] n
  | two {a b : UInt8} {n : Nat} (first : a.toNat = 0xC0 + n / 64) (second : b.toNat = 0x80 + n % 64)
    (least : 0x80 ≤ n) (most : n < 0x800) : Encodes [a, b] n
  | three {a b c : UInt8} {n : Nat} (first : a.toNat = 0xE0 + n / 4096)
    (second : b.toNat = 0x80 + n / 64 % 64) (third : c.toNat = 0x80 + n % 64)
    (least : 0x800 ≤ n) (most : n < 0x10000) (scalar : n < 0xD800 ∨ 0xDFFF < n) :
      Encodes [a, b, c] n
  | four {a b c d : UInt8} {n : Nat} (first : a.toNat = 0xF0 + n / 262144)
    (second : b.toNat = 0x80 + n / 4096 % 64) (third : c.toNat = 0x80 + n / 64 % 64)
    (fourth : d.toNat = 0x80 + n % 64) (least : 0x10000 ≤ n) (most : n < 0x110000) :
    Encodes [a, b, c, d] n

theorem encodes_encode (c : Char) : Encodes (encode c) c.toNat := by
  have valid : c.toNat < 0xD800 ∨ 0xDFFF < c.toNat ∧ c.toNat < 0x110000 := c.valid
  have byte (n : Nat) (small : n < 256) : (UInt8.ofNat n).toNat = n := by
    rw [UInt8.toNat_ofNat', Nat.mod_eq_of_lt small]
  have code : c.val.toNat = c.toNat := rfl
  simp only [encode, String.utf8EncodeChar, code]
  split
  · exact .one (byte _ (by omega)) (by omega)
  split
  · apply Encodes.two
    · rw [byte _ (by omega)]; omega
    · rw [byte _ (by omega)]; omega
    · omega
    · omega
  split
  · apply Encodes.three
    · rw [byte _ (by omega)]; omega
    · rw [byte _ (by omega)]; omega
    · rw [byte _ (by omega)]; omega
    · omega
    · omega
    · omega
  · apply Encodes.four
    · rw [byte _ (by omega)]; omega
    · rw [byte _ (by omega)]; omega
    · rw [byte _ (by omega)]; omega
    · rw [byte _ (by omega)]; omega
    · omega
    · omega

theorem Encodes.unique {t u : Text} {n : Nat} (first : Encodes t n) (second : Encodes u n) :
    t = u := by
  cases first <;> cases second
    <;> first | omega | (simp only [List.cons.injEq, and_true, ← UInt8.toNat_inj]; omega)

theorem Encodes.next? {t : Text} {n : Nat} (encodes : Encodes t n) (rest : Text) :
    next? (t ++ rest) = some (Char.ofNat n, rest) := by
  cases encodes with
  | one first most =>
    subst first
    exact next?_ascii most rest
  | two first second least most =>
    simp only [List.cons_append, List.nil_append, next?.eq_def, continues, low, Bool.and_eq_true,
      decide_eq_true_eq, UInt8.le_iff_toNat_le, UInt8.lt_iff_toNat_lt, UInt8.reduceToNat,
      first, second]
    rw [if_neg (by omega), if_pos (by omega), if_pos (by omega)]
    congr 3
    omega
  | three first second third least most scalar =>
    simp only [List.cons_append, List.nil_append, next?.eq_def, continues, low, Bool.and_eq_true,
      decide_eq_true_eq, beq_iff_eq, ← UInt8.toNat_inj, UInt8.le_iff_toNat_le,
      UInt8.lt_iff_toNat_lt, UInt8.reduceToNat, first, second, third]
    rw [if_neg (by omega), if_neg (by omega), if_pos (by omega), if_pos]
    · congr 3
      omega
    · split <;> split <;> simp only [UInt8.reduceToNat] <;> omega
  | four first second third fourth least most =>
    simp only [List.cons_append, List.nil_append, next?.eq_def, continues, low, Bool.and_eq_true,
      decide_eq_true_eq, beq_iff_eq, ← UInt8.toNat_inj, UInt8.le_iff_toNat_le,
      UInt8.lt_iff_toNat_lt, UInt8.reduceToNat, first, second, third, fourth]
    rw [if_neg (by omega), if_neg (by omega), if_neg (by omega), if_pos (by omega), if_pos]
    · congr 3
      omega
    · split <;> split <;> simp only [UInt8.reduceToNat] <;> omega

theorem toNat_ofNat {n : Nat} (valid : n < 0xD800 ∨ 0xDFFF < n ∧ n < 0x110000) :
    (Char.ofNat n).toNat = n :=
  toNat_ofNat_of_isValidChar valid

theorem encodes_of_next? {t rest : Text} {c : Char} (found : next? t = some (c, rest)) :
    ∃ bytes, t = bytes ++ rest ∧ Encodes bytes c.toNat := by
  rw [next?.eq_def] at found
  repeat' split at found
  all_goals
    simp only [reduceCtorEq, Option.some.injEq, Prod.mk.injEq, Option.ite_none_right_eq_some,
      continues, low, Bool.and_eq_true, decide_eq_true_eq, beq_iff_eq, UInt8.le_iff_toNat_le,
      UInt8.lt_iff_toNat_lt, ← UInt8.toNat_inj, UInt8.reduceToNat] at *
  · obtain ⟨rfl, rfl⟩ := found
    rw [toNat_ofNat (by omega)]
    exact ⟨_, rfl, .one rfl (by omega)⟩
  · obtain ⟨rfl, rfl⟩ := found
    rw [toNat_ofNat (by omega)]
    exact ⟨[_, _], rfl, .two (by omega) (by omega) (by omega) (by omega)⟩
  all_goals
    obtain ⟨bounds, rfl, rfl⟩ := found
    first
    | omega
    | rw [toNat_ofNat (by omega)]
  iterate 3
    exact ⟨[_, _, _], rfl, .three (by omega) (by omega) (by omega) (by omega) (by omega) (by omega)⟩
  all_goals
    exact ⟨[_, _, _, _], rfl,
      .four (by omega) (by omega) (by omega) (by omega) (by omega) (by omega)⟩

/-- No byte of a longer character is below 128. -/
theorem toNat_of_mem_encode {c : Char} {b : UInt8} (ascii : b.toNat < 128) (inside : b ∈ encode c) :
    c.toNat = b.toNat := by
  rcases mem_encode inside with same | high
  · exact same.symm
  · omega

theorem eq_of_mem_encode {c : Char} {b : UInt8} (ascii : b.toNat < 128) (inside : b ∈ encode c) :
    c = Char.ofNat b.toNat := by
  rw [← toNat_of_mem_encode ascii inside, Char.ofNat_toNat]

theorem encode_of_mem {c : Char} {b : UInt8} (ascii : b.toNat < 128) (inside : b ∈ encode c) :
    encode c = [b] :=
  (encodes_encode c).unique (toNat_of_mem_encode ascii inside ▸ .one rfl ascii)

theorem next?_encode_append (c : Char) (rest : Text) :
    next? (encode c ++ rest) = some (c, rest) := by
  have found := (encodes_encode c).next? rest
  rwa [Char.ofNat_toNat] at found

theorem append_of_next? {t rest : Text} {c : Char} (found : next? t = some (c, rest)) :
    t = encode c ++ rest := by
  obtain ⟨bytes, rfl, encodes⟩ := encodes_of_next? found
  rw [encodes.unique (encodes_encode c)]

theorem piecesFrom_append (skipped rest : Text) :
    piecesFrom skipped.length (skipped ++ rest) = pieces rest := by
  induction skipped with
  | nil => rfl
  | cons b skipped ih => exact ih

theorem encode_ne_nil (c : Char) : encode c ≠ [] := String.utf8EncodeChar_ne_nil

theorem pieces_encode_append (c : Char) (rest : Text) :
    pieces (encode c ++ rest) = .char c :: pieces rest := by
  have found := next?_encode_append c rest
  have size : (encode c).length = c.utf8Size := String.length_utf8EncodeChar c
  obtain ⟨b, others, bytes⟩ := List.exists_cons_of_ne_nil (encode_ne_nil c)
  rw [bytes, List.cons_append] at found ⊢
  rw [pieces, piecesFrom, found]
  have left : c.utf8Size - 1 = others.length := by
    rw [← size, bytes]
    rfl
  simp only [left, piecesFrom_append]

/-- The text that is written in some characters. -/
def encodeAll (characters : List Char) : Text := characters.flatMap encode

theorem pieces_encodeAll (characters : List Char) :
    pieces (encodeAll characters) = characters.map .char := by
  induction characters with
  | nil => rfl
  | cons c characters ih =>
    rw [encodeAll, List.flatMap_cons, pieces_encode_append]
    exact congrArg (_ :: ·) ih

/-- Nothing of a text is lost or changed when it is taken to pieces. -/
theorem flatMap_bytes_piecesFrom (skip : Nat) (t : Text) :
    (piecesFrom skip t).flatMap Piece.bytes = t.drop skip := by
  induction t generalizing skip with
  | nil => cases skip <;> rfl
  | cons b rest ih =>
    cases skip with
    | succ skip => exact ih skip
    | zero =>
      rw [piecesFrom]
      split
      · next c after found =>
        have bytes := append_of_next? found
        have size : (encode c).length = c.utf8Size := String.length_utf8EncodeChar c
        have positive := c.utf8Size_pos
        rw [List.flatMap_cons, ih, List.drop_zero, Piece.bytes, bytes]
        have dropped := congrArg (List.drop c.utf8Size) bytes
        rw [← size, List.drop_left, size] at dropped
        rw [← dropped]
        obtain ⟨less, same⟩ : ∃ less, c.utf8Size = less + 1 := ⟨c.utf8Size - 1, by omega⟩
        rw [same]
        rfl
      · rw [List.flatMap_cons, ih]
        rfl

theorem isValid_iff {t : Text} : isValid t ↔ ∃ characters, t = encodeAll characters := by
  constructor
  · intro valid
    have whole : (pieces t).flatMap Piece.bytes = t := flatMap_bytes_piecesFrom 0 t
    rw [isValid, List.all_eq_true] at valid
    rw [← whole]
    clear whole
    generalize pieces t = some at valid ⊢
    induction some with
    | nil => exact ⟨[], rfl⟩
    | cons piece others ih =>
      obtain ⟨characters, same⟩ := ih fun other inside => valid other (by simp [inside])
      cases piece with
      | char c => exact ⟨c :: characters, by rw [List.flatMap_cons, same]; rfl⟩
      | stray b => exact absurd (valid (.stray b) (by simp)) (by simp)
  · rintro ⟨characters, rfl⟩
    rw [isValid, pieces_encodeAll]
    simp

/-- A text that is valid already is not repaired. -/
theorem repair_of_isValid {t : Text} (valid : isValid t) : repair t = t := by
  obtain ⟨characters, rfl⟩ := isValid_iff.1 valid
  rw [repair, pieces_encodeAll, List.flatMap_map]
  rfl

theorem isValid_append {s t : Text} (first : isValid s) (second : isValid t) :
    isValid (s ++ t) := by
  obtain ⟨front, rfl⟩ := isValid_iff.1 first
  obtain ⟨back, rfl⟩ := isValid_iff.1 second
  exact isValid_iff.2 ⟨front ++ back, by simp [encodeAll]⟩

theorem isValid_encode (c : Char) : isValid (encode c) :=
  isValid_iff.2 ⟨[c], by simp [encodeAll]⟩

/-- Past its first character a valid text is valid. -/
theorem isValid_of_next? {t rest : Text} {c : Char} (valid : isValid t)
    (found : next? t = some (c, rest)) : isValid rest := by
  obtain ⟨characters, rfl⟩ := isValid_iff.1 valid
  cases characters with
  | nil => cases found
  | cons d others =>
    rw [encodeAll, List.flatMap_cons, next?_encode_append] at found
    cases found
    exact isValid_iff.2 ⟨others, rfl⟩

theorem exists_next? {b : UInt8} {rest : Text} (valid : isValid (b :: rest)) :
    ∃ c after, next? (b :: rest) = some (c, after) := by
  obtain ⟨characters, same⟩ := isValid_iff.1 valid
  cases characters with
  | nil => cases same
  | cons d others =>
    rw [same, encodeAll, List.flatMap_cons]
    exact ⟨d, _, next?_encode_append d _⟩

theorem isValid_cons_iff {b : UInt8} (ascii : b.toNat < 128) {rest : Text} :
    isValid (b :: rest) ↔ isValid rest := by
  constructor
  · intro valid
    exact isValid_of_next? valid (next?_ascii ascii rest)
  · intro valid
    have bytes := append_of_next? (next?_ascii ascii rest)
    rw [bytes]
    exact isValid_append (isValid_encode _) valid

/-- What stands before a last byte that is a character is valid. -/
theorem isValid_of_append {t : Text} {b : UInt8} (ascii : b.toNat < 128)
    (valid : isValid (t ++ [b])) :
    isValid t := by
  obtain ⟨characters, same⟩ := isValid_iff.1 valid
  obtain rfl | ⟨front, c, rfl⟩ := characters.eq_nil_or_concat'
  · simp [encodeAll] at same
  · have split : t ++ [b] = encodeAll front ++ encode c := by simpa [encodeAll] using same
    have last : b ∈ encode c := by
      have final := congrArg List.getLast? split
      rw [List.getLast?_concat, List.getLast?_append_of_ne_nil _ (encode_ne_nil c)] at final
      exact List.mem_of_getLast? final.symm
    rw [encode_of_mem ascii last] at split
    rw [List.append_cancel_right split]
    exact isValid_iff.2 ⟨front, rfl⟩

theorem isValid_ofCode (n : Nat) : isValid (ofCode n) := by
  unfold ofCode
  split
  · exact isValid_encode _
  · rfl

/-- Bytes that are characters can be dropped from the front of a valid text. -/
theorem isValid_drop {t : Text} (valid : isValid t) {count : Nat}
    (ascii : ∀ b ∈ t.take count, b.toNat < 128) : isValid (t.drop count) := by
  induction count generalizing t with
  | zero => exact valid
  | succ count ih =>
    cases t with
    | nil => exact valid
    | cons b t =>
      rw [List.take_succ_cons, List.forall_mem_cons] at ascii
      exact ih ((isValid_cons_iff ascii.1).1 valid) ascii.2

end ShellToDeno.Utf8

namespace ShellToDeno.Shell

open Utf8

theorem ascii_of_isBaseDigit {base : Nat} {b : UInt8} (digit : isBaseDigit base b) :
    b.toNat < 128 := by
  by_contra high
  have classes : ∀ b : UInt8, ¬b.toNat < 128 → Text.isDigit b = false ∧
      ('a' ≤ b && b ≤ 'f') = false ∧ ('A' ≤ b && b ≤ 'F') = false := by decide +kernel
  obtain ⟨decimal, small, capital⟩ := classes b high
  simp [isBaseDigit, digitValue?, decimal, small, capital] at digit

/-- What an escape stands for and what follows it are valid. -/
structure LeavesValid (t value : Text) (width : Nat) : Prop where
  value : isValid value
  rest : isValid (t.drop width)

theorem leavesValid_codeEscape? {base most lead width : Nat} (front : Text) {t value : Text}
    (length : front.length = lead) (valid : isValid t)
    (found : codeEscape? base most lead t = some (value, width)) :
    LeavesValid (front ++ t) value width := by
  unfold codeEscape? at found
  simp only [Option.ite_none_left_eq_some, Option.some.injEq, Prod.mk.injEq] at found
  obtain ⟨_, rfl, rfl⟩ := found
  refine ⟨isValid_ofCode _, ?_⟩
  generalize taken : (t.take most).takeWhile (isBaseDigit base) = digits
  have start : digits <+: t := by
    rw [← taken]
    exact (List.takeWhile_prefix _).trans (List.take_prefix _ _)
  rw [← length, ← List.drop_drop, List.drop_left]
  refine isValid_drop valid fun b inside => ?_
  rw [← List.prefix_iff_eq_take.1 start, ← taken] at inside
  exact ascii_of_isBaseDigit (List.all_eq_true.1 List.all_takeWhile b inside)

/-- The escapes of an ANSI-C string stand for characters and take whole characters. -/
theorem leavesValid_ansiEscape? {t value : Text} {width : Nat} (valid : isValid t)
    (found : ansiEscape? t = some (value, width)) : LeavesValid t value width := by
  cases t with
  | nil => cases found
  | cons b rest =>
    have ascii {c : Char} (same : Char.ofNat b.toNat = c) (small : c.toNat < 128) :
        b.toNat < 128 := by
      rwa [← same, toNat_ofNat (.inl (Nat.lt_trans b.toNat_lt (by decide)))] at small
    have single {v : Text} (small : b.toNat < 128) (good : isValid v)
        (same : some (v, 1) = some (value, width)) : LeavesValid (b :: rest) value width := by
      cases same
      exact ⟨good, (isValid_cons_iff small).1 valid⟩
    rw [ansiEscape?.eq_def] at found
    dsimp only at found
    split at found
    case h_18 same =>
      have later := (isValid_cons_iff (ascii same (by decide))).1 valid
      split at found
      · cases found
      · cases found
      · next control _ _ =>
        cases found
        obtain ⟨c, after, character⟩ := exists_next? later
        have size : (encode c).length = c.utf8Size := String.length_utf8EncodeChar c
        refine ⟨isValid_ofCode _, ?_⟩
        rw [character, Nat.add_comm, List.drop_succ_cons]
        change isValid (List.drop c.utf8Size (control :: _))
        rw [append_of_next? character, ← size, List.drop_left]
        exact isValid_of_next? later character
    case h_19 => exact leavesValid_codeEscape? [] rfl valid found
    all_goals
      rename_i same
      have small := ascii same (by decide)
      first
      | exact single small ((isValid_cons_iff small).2 rfl) found
      | exact single small rfl found
      | exact leavesValid_codeEscape? [b] rfl ((isValid_cons_iff small).1 valid) found

theorem ansiFrom_eq_drop (skip : Nat) (t : Text) :
    ansiFrom skip t = ansiUnescape (t.drop skip) := by
  induction t generalizing skip with
  | nil => cases skip <;> rfl
  | cons b t ih =>
    cases skip with
    | zero => rfl
    | succ skip => exact ih skip

/-- Text without escapes is copied. -/
theorem ansiUnescape_append {s : Text} (plain : ∀ b ∈ s, b ≠ Ascii.backslash) (rest : Text) :
    ansiUnescape (s ++ rest) = s ++ ansiUnescape rest := by
  induction s with
  | nil => rfl
  | cons b s ih =>
    rw [List.forall_mem_cons] at plain
    rw [List.cons_append, ansiUnescape, ansiFrom, if_neg (by simpa using plain.1)]
    exact congrArg (b :: ·) (ih plain.2)

theorem isValid_ansiUnescape {t : Text} (valid : isValid t) : isValid (ansiUnescape t) := by
  induction length : t.length using Nat.strongRecOn generalizing t with
  | ind size ih =>
  cases t with
  | nil => exact valid
  | cons b rest =>
    by_cases backslash : b = Ascii.backslash
    · subst backslash
      have later := (isValid_cons_iff (by decide)).1 valid
      have shorter (count : Nat) : (rest.drop count).length < size := by
        rw [← length, List.length_drop, List.length_cons]
        omega
      rw [ansiUnescape, ansiFrom, if_pos (beq_self_eq_true _)]
      split
      · next value width escape =>
        obtain ⟨good, left⟩ := leavesValid_ansiEscape? later escape
        rw [ansiFrom_eq_drop]
        exact isValid_append good (ih _ (shorter width) left rfl)
      · rw [isValid_cons_iff (by decide)]
        exact ih _ (shorter 0) later rfl
    · obtain ⟨c, after, found⟩ := exists_next? valid
      have bytes := append_of_next? found
      have plain : ∀ d ∈ encode c, d ≠ Ascii.backslash := by
        rintro d inside rfl
        rw [encode_of_mem (by decide) inside] at bytes
        exact backslash (List.cons.inj bytes).1
      rw [bytes, ansiUnescape_append plain]
      refine isValid_append (isValid_encode c) (ih _ ?_ (isValid_of_next? valid found) rfl)
      have positive := List.length_pos_iff.2 (encode_ne_nil c)
      rw [← length, bytes, List.length_append]
      omega

end ShellToDeno.Shell
