import Mathlib.Data.List.Induction
import Mathlib.Data.List.Nodup
import ShellToDeno.Files

/-!
# Trees in which files are put

A file can be put where no file is in the way and no directory stands. It is then found at its
location, what is above it are directories, and all else is found as before. Files that are put at
locations of which neither lies below the other can be put in either order.
-/
namespace ShellToDeno

namespace Text
variable {s t u : Text}

theorem lt_iff : lt s t = true ↔ s < t := by
  induction s generalizing t with
  | nil => cases t <;> simp [lt]
  | cons a s ih => cases t <;> simp [lt, ih, List.cons_lt_cons_iff]

theorem lt_trans (first : lt s t = true) (second : lt t u = true) : lt s u = true :=
  lt_iff.2 (List.lt_trans (lt_iff.1 first) (lt_iff.1 second))

theorem lt_asymm (less : lt s t = true) : lt t s = false := by
  rw [← Bool.not_eq_true, lt_iff]
  exact List.lt_asymm (lt_iff.1 less)

theorem lt_of_ne (differ : s ≠ t) (none : lt s t = false) : lt t s = true := by
  rw [← Bool.not_eq_true, lt_iff, List.not_lt] at none
  rw [lt_iff]
  exact Std.lt_of_le_of_ne none differ.symm

theorem eraseDups_concat (names : List Text) (name : Text) :
    (names ++ [name]).eraseDups = names.eraseDups ++ if name ∈ names then [] else [name] := by
  rw [List.eraseDups_append]
  by_cases known : name ∈ names
  · simp [List.removeAll, known]
  · simp [List.removeAll, known, List.eraseDups_cons]

theorem nodup_eraseDups (names : List Text) : names.eraseDups.Nodup := by
  induction names using List.reverseRecOn with
  | nil => exact .nil
  | append_singleton names name ih =>
    rw [eraseDups_concat]
    by_cases known : name ∈ names
    · rwa [if_pos known, List.append_nil]
    · rw [if_neg known, ← List.concat_eq_append]
      exact ih.concat (mt List.mem_eraseDups.1 known)

end Text

namespace Entry
variable {name other : Text} {new old : Entry} {entries : List (Text × Entry)}

/-! Entries under their names. -/

theorem insert_cons_self (rest : List (Text × Entry)) :
    insert name new ((name, old) :: rest) = (name, new) :: rest := by
  simp [insert]

theorem insert_cons_lt (rest : List (Text × Entry)) (less : Text.lt name other = true) :
    insert name new ((other, old) :: rest) = (name, new) :: (other, old) :: rest := by
  have differ : other ≠ name := by
    rintro rfl
    exact Bool.noConfusion (less.symm.trans (Text.lt_asymm less))
  simp [insert, differ, less]

theorem insert_cons_gt (rest : List (Text × Entry)) (greater : Text.lt other name = true) :
    insert name new ((other, old) :: rest) = (other, old) :: insert name new rest := by
  have differ : other ≠ name := by
    rintro rfl
    exact Bool.noConfusion (greater.symm.trans (Text.lt_asymm greater))
  simp [insert, differ, Text.lt_asymm greater]

/-- A name is one of the list's own names, or it stands before or after it. -/
theorem order_cases (name other : Text) :
    name = other ∨ Text.lt name other = true ∨ Text.lt other name = true := by
  by_cases same : name = other
  · exact .inl same
  · cases less : Text.lt name other with
    | true => exact .inr (.inl rfl)
    | false => exact .inr (.inr (Text.lt_of_ne same less))

theorem lookup_insert_self : (insert name new entries).lookup name = some new := by
  induction entries with
  | nil => simp [insert]
  | cons first rest ih =>
    obtain ⟨there, old⟩ := first
    rcases order_cases name there with rfl | less | greater
    · simp [insert_cons_self]
    · simp [insert_cons_lt rest less]
    · have differ : name ≠ there := by
        rintro rfl
        exact Bool.noConfusion (greater.symm.trans (Text.lt_asymm greater))
      rw [insert_cons_gt rest greater, List.lookup_cons, beq_false_of_ne differ]
      exact ih

theorem lookup_insert_of_ne (differ : other ≠ name) :
    (insert name new entries).lookup other = entries.lookup other := by
  induction entries with
  | nil => simp [insert, List.lookup_cons, beq_false_of_ne differ]
  | cons first rest ih =>
    obtain ⟨there, old⟩ := first
    rcases order_cases name there with rfl | less | greater
    · simp [insert_cons_self, List.lookup_cons, beq_false_of_ne differ]
    · rw [insert_cons_lt rest less, List.lookup_cons, beq_false_of_ne differ]
    · rw [insert_cons_gt rest greater, List.lookup_cons, List.lookup_cons, ih]

theorem insert_insert : insert name new (insert name old entries) = insert name new entries := by
  induction entries with
  | nil => exact insert_cons_self []
  | cons first rest ih =>
    obtain ⟨there, last⟩ := first
    rcases order_cases name there with rfl | less | greater
    · rw [insert_cons_self, insert_cons_self, insert_cons_self]
    · rw [insert_cons_lt rest less, insert_cons_lt rest less, insert_cons_self]
    · rw [insert_cons_gt rest greater, insert_cons_gt rest greater, insert_cons_gt _ greater, ih]

/-- Of two names the smaller one is put before the greater one, whichever comes first. -/
theorem insert_comm_of_lt (less : Text.lt name other = true) :
    insert name new (insert other old entries) = insert other old (insert name new entries) := by
  induction entries with
  | nil =>
    have single : insert other old [] = [(other, old)] := rfl
    rw [single, insert_cons_lt [] less]
    exact (insert_cons_gt [] less).symm
  | cons first rest ih =>
    obtain ⟨there, last⟩ := first
    rcases order_cases other there with rfl | before | after
    · rw [insert_cons_self, insert_cons_lt rest less, insert_cons_lt rest less,
        insert_cons_gt _ less, insert_cons_self]
    · have far := Text.lt_trans less before
      rw [insert_cons_lt rest before, insert_cons_lt _ less, insert_cons_lt rest far,
        insert_cons_gt _ less, insert_cons_lt rest before]
    · rw [insert_cons_gt rest after]
      rcases order_cases name there with rfl | below | above
      · rw [insert_cons_self, insert_cons_self, insert_cons_gt _ after]
      · rw [insert_cons_lt _ below, insert_cons_lt rest below, insert_cons_gt _ less,
          insert_cons_gt _ after]
      · rw [insert_cons_gt _ above, insert_cons_gt rest above, insert_cons_gt _ after, ih]

theorem insert_comm (differ : name ≠ other) :
    insert name new (insert other old entries) = insert other old (insert name new entries) := by
  rcases order_cases name other with same | less | greater
  · exact absurd same differ
  · exact insert_comm_of_lt less
  · exact (insert_comm_of_lt greater).symm

/-! Entries at their locations. -/

/-- Whether a file can be put at a location: the directories on the way are there or can be made,
and the location is no directory itself. -/
def isFree : List Text → Option Entry → Bool
  | _, none => true
  | [], some entry => !entry.isDirectory
  | name :: rest, some (.directory entries) => isFree rest (entries.lookup name)
  | _ :: _, some (.file _ _) => false

theorem isFree_none (location : List Text) : isFree location none = true := by
  cases location <;> rfl

theorem find?_cons (name : Text) (rest : List Text) (entries : List (Text × Entry)) :
    find? (name :: rest) (.directory entries) = (entries.lookup name).bind (find? rest) := rfl

theorem mem_of_lookup {name : Text} {entry : Entry} {entries : List (Text × Entry)}
    (found : entries.lookup name = some entry) : (name, entry) ∈ entries := by
  obtain ⟨before, after, rfl, _⟩ := List.lookup_eq_some_iff.1 found
  exact List.mem_append_right _ List.mem_cons_self

/-- Whatever a directory hands on to its entries holds of all that is found in it. -/
theorem of_find? {P : Entry → Prop}
    (handed : ∀ {entries name entry}, P (.directory entries) → (name, entry) ∈ entries → P entry)
    {root entry : Entry} (here : P root) {location : List Text}
    (found : root.find? location = some entry) : P entry := by
  induction location generalizing root with
  | nil =>
    cases found
    exact here
  | cons name rest ih =>
    cases root with
    | file => cases found
    | directory entries =>
      obtain ⟨next, there, below⟩ := Option.bind_eq_some_iff.1 found
      exact ih (handed here (mem_of_lookup there)) below

/-- A tree whose directories have a property of the names in them. -/
inductive Everywhere (P : List Text → Prop) : Entry → Prop
  | file (content : Text) (executable : Bool) : Everywhere P (.file content executable)
  | directory {entries : List (Text × Entry)} (names : P (entries.map Prod.fst))
      (inside : ∀ e ∈ entries, Everywhere P e.2) : Everywhere P (.directory entries)

@[simp]
theorem everywhere_file (P : List Text → Prop) (content : Text) (executable : Bool) :
    (file content executable).Everywhere P := .file content executable

@[simp]
theorem everywhere_directory {P : List Text → Prop} {entries : List (Text × Entry)} :
    (directory entries).Everywhere P ↔
      P (entries.map Prod.fst) ∧ ∀ e ∈ entries, e.2.Everywhere P := by
  constructor
  · rintro ⟨⟩
    exact ⟨‹_›, ‹_›⟩
  · exact fun ⟨names, inside⟩ => .directory names inside

theorem Everywhere.find? {P : List Text → Prop} {root entry : Entry} (holds : root.Everywhere P)
    {location : List Text} (found : root.find? location = some entry) : entry.Everywhere P :=
  of_find? (fun holds member => (everywhere_directory.1 holds).2 _ member) holds found

theorem put_cons (name : Text) (rest : List Text) (entries : List (Text × Entry)) (new : Entry) :
    put (name :: rest) (.directory entries) new = .directory
      (insert name (put rest ((entries.lookup name).getD (.directory [])) new) entries) := rfl

theorem find?_below_file {location : List Text} (below : location ≠ []) (content : Text)
    (executable : Bool) : find? location (.file content executable) = none := by
  cases location with
  | nil => exact absurd rfl below
  | cons => rfl

theorem find?_below_empty {location : List Text} (below : location ≠ []) :
    find? location (.directory []) = none := by
  cases location with
  | nil => exact absurd rfl below
  | cons => rfl

theorem find?_put_cons_self (rest location : List Text) :
    find? (name :: location) (put (name :: rest) (.directory entries) new) =
      find? location (put rest ((entries.lookup name).getD (.directory [])) new) := by
  rw [put_cons, find?_cons, lookup_insert_self]
  rfl

/-- The directory in which the rest of the way is put. It is made when it is missing. -/
theorem isFree_getD {rest : List Text} (further : rest ≠ [])
    (free : isFree rest (entries.lookup name) = true) :
    isFree rest (some ((entries.lookup name).getD (.directory []))) = true := by
  cases found : entries.lookup name with
  | some entry => exact found ▸ free
  | none =>
    cases rest with
    | nil => exact absurd rfl further
    | cons next rest => exact isFree_none rest

variable {root : Entry} {location place : List Text}

theorem exists_directory_of_isFree {rest : List Text}
    (free : isFree (name :: rest) (some root) = true) :
    ∃ entries, root = .directory entries ∧ isFree rest (entries.lookup name) = true := by
  cases root with
  | file => exact Bool.noConfusion free
  | directory entries => exact ⟨entries, rfl, free⟩

theorem find?_put_self (free : isFree place (some root) = true) :
    find? place (put place root new) = some new := by
  induction place generalizing root with
  | nil => rfl
  | cons name rest ih =>
    obtain ⟨entries, rfl, ahead⟩ := exists_directory_of_isFree free
    rw [find?_put_cons_self]
    by_cases last : rest = []
    · subst last
      rfl
    · exact ih (isFree_getD last ahead)

theorem find?_put_above (free : isFree place (some root) = true) (above : location <+: place)
    (differ : location ≠ place) :
    ∃ entries, find? location (put place root new) = some (.directory entries) := by
  induction place generalizing root location with
  | nil => exact absurd (List.prefix_nil.1 above) differ
  | cons name rest ih =>
    obtain ⟨entries, rfl, ahead⟩ := exists_directory_of_isFree free
    cases location with
    | nil => exact ⟨_, rfl⟩
    | cons first location =>
      obtain ⟨rfl, inside⟩ := List.cons_prefix_cons.1 above
      have other : location ≠ rest := fun same => differ (same ▸ rfl)
      have further : rest ≠ [] := by
        rintro rfl
        exact other (List.prefix_nil.1 inside)
      rw [find?_put_cons_self]
      exact ih (isFree_getD further ahead) inside other

/-- Only what is at the location of a new file or above it is found otherwise than before; the same
goes for an empty directory. -/
theorem find?_put_beside (hollow : ∀ {rest}, rest ≠ [] → find? rest new = none)
    (free : isFree place (some root) = true) (beside : ¬location <+: place) :
    find? location (put place root new) = find? location root := by
  have started : location ≠ [] := by
    rintro rfl
    exact beside List.nil_prefix
  induction place generalizing root location with
  | nil =>
    cases root with
    | file => rw [put, hollow started, find?_below_file started]
    | directory => exact Bool.noConfusion free
  | cons name rest ih =>
    obtain ⟨entries, rfl, ahead⟩ := exists_directory_of_isFree free
    obtain ⟨first, location, rfl⟩ := List.exists_cons_of_ne_nil started
    by_cases same : first = name
    · subst same
      have inside : ¬location <+: rest := fun within =>
        beside (List.cons_prefix_cons.2 ⟨rfl, within⟩)
      have further : location ≠ [] := by
        rintro rfl
        exact inside List.nil_prefix
      rw [find?_put_cons_self, find?_cons]
      cases found : entries.lookup first with
      | some entry =>
        rw [found] at ahead
        exact ih ahead inside further
      | none =>
        rw [Option.getD_none, Option.bind_none]
        by_cases last : rest = []
        · rw [last, put, hollow further]
        · have made := isFree_getD last ahead
          rw [found] at made
          exact (ih made inside further).trans (find?_below_empty further)
    · rw [put_cons, find?_cons, lookup_insert_of_ne same, find?_cons]

/-- What is found at a free location and above it. -/
theorem isFree_iff : isFree place (some root) = true ↔
    (∀ above, above <+: place → above ≠ place →
      ∀ content executable, find? above root ≠ some (.file content executable)) ∧
    ∀ entries, find? place root ≠ some (.directory entries) := by
  induction place generalizing root with
  | nil =>
    cases root with
    | file => simp [isFree, isDirectory, find?]
    | directory => simp [isFree, isDirectory, find?]
  | cons name rest ih =>
    cases root with
    | file content executable =>
      constructor
      · exact nofun
      · rintro ⟨way, -⟩
        exact absurd rfl (way [] List.nil_prefix (List.cons_ne_nil _ _).symm content executable)
    | directory entries =>
      rw [find?_cons, isFree]
      cases found : entries.lookup name with
      | none =>
        simp only [isFree, Option.bind_none, ne_eq, reduceCtorEq, not_false_eq_true, implies_true,
          and_true, true_iff]
        intro above within differ content executable
        cases above with
        | nil => exact nofun
        | cons first above =>
          obtain ⟨rfl, -⟩ := List.cons_prefix_cons.1 within
          rw [find?_cons, found]
          exact nofun
      | some entry =>
        rw [ih, Option.bind_some]
        apply and_congr_left
        intro _
        constructor
        · intro way above within differ content executable
          cases above with
          | nil => exact nofun
          | cons first above =>
            obtain ⟨rfl, inside⟩ := List.cons_prefix_cons.1 within
            rw [find?_cons, found, Option.bind_some]
            exact way above inside (fun same => differ (same ▸ rfl)) content executable
        · intro way above within differ content executable
          have later := way (name :: above) (List.cons_prefix_cons.2 ⟨rfl, within⟩)
            (fun same => differ (List.cons.inj same).2) content executable
          rwa [find?_cons, found, Option.bind_some] at later

/-- Neither of two locations is the other one or lies below it. -/
def Apart (location place : List Text) : Prop := ¬location <+: place ∧ ¬place <+: location

instance (location place : List Text) : Decidable (Apart location place) :=
  inferInstanceAs (Decidable (_ ∧ _))

theorem Apart.symm (apart : Apart location place) : Apart place location := ⟨apart.2, apart.1⟩

theorem put_comm {first second : Entry} (apart : Apart location place) :
    put location (put place root first) second = put place (put location root second) first := by
  induction location generalizing place root with
  | nil => exact absurd List.nil_prefix apart.1
  | cons name location ih =>
    cases place with
    | nil => exact absurd List.nil_prefix apart.2
    | cons other place =>
      cases root with
      | file => rfl
      | directory entries =>
        by_cases same : name = other
        · subst same
          have inside : Apart location place :=
            ⟨fun within => apart.1 (List.cons_prefix_cons.2 ⟨rfl, within⟩),
              fun within => apart.2 (List.cons_prefix_cons.2 ⟨rfl, within⟩)⟩
          simp only [put_cons, lookup_insert_self, Option.getD_some, insert_insert, ih inside]
        · simp only [put_cons, lookup_insert_of_ne same, lookup_insert_of_ne (Ne.symm same)]
          rw [insert_comm same]

/-- What is put below an empty directory is put there all the same if the directory was not
there. -/
theorem put_put_below {rest : List Text} (missing : find? place root = none) :
    put (place ++ rest) (put place root (.directory [])) new = put (place ++ rest) root new := by
  induction place generalizing root with
  | nil => cases missing
  | cons name place ih =>
    cases root with
    | file => rfl
    | directory entries =>
      rw [List.cons_append, put_cons, put_cons, put_cons, lookup_insert_self, Option.getD_some,
        insert_insert]
      rw [find?_cons] at missing
      by_cases last : place = []
      · subst last
        rw [Option.bind_eq_none_iff] at missing
        cases found : entries.lookup name with
        | none => rfl
        | some entry => exact absurd (missing entry found) (Option.some_ne_none entry)
      · rw [ih]
        cases found : entries.lookup name with
        | none => exact find?_below_empty last
        | some entry =>
          rw [found] at missing
          exact missing

end Entry

end ShellToDeno
