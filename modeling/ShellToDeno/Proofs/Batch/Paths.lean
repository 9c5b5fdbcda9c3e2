import Mathlib.Data.List.Induction
import ShellToDeno.Path
import ShellToDeno.Proofs.Splitting

/-!
# Paths by their parts

A cleaned path is some steps up and then names. `Tidy` says this of the parts that cleaning
collects; each part keeps it, and a tidy list of parts is cleaned to itself. Hence the parts of a
cleaned path are known, a path below another one has its parts and more, and the way between the
two is what it has more.
-/
namespace ShellToDeno

namespace Path

/-- The name of a file or of a directory. -/
structure IsName (name : Text) : Prop where
  nonempty : name ≠ []
  not_here : name ≠ "."
  not_up : name ≠ parent
  no_slash : Ascii.slash ∉ name

instance (name : Text) : Decidable (IsName name) :=
  decidable_of_iff (name ≠ [] ∧ name ≠ "." ∧ name ≠ parent ∧ Ascii.slash ∉ name)
    ⟨fun ⟨nonempty, not_here, not_up, no_slash⟩ => ⟨nonempty, not_here, not_up, no_slash⟩,
      fun ⟨nonempty, not_here, not_up, no_slash⟩ => ⟨nonempty, not_here, not_up, no_slash⟩⟩

theorem isRooted_cons (b : UInt8) (rest : Text) : isRooted (b :: rest) = (b == Ascii.slash) := by
  by_cases slash : b = Ascii.slash
  · subst slash
    cases rest <;> rfl
  · have differ : Ascii.slash ≠ b := fun same => slash same.symm
    have : isRooted (b :: rest) = ((Ascii.slash == b) && List.isPrefixOf [] rest) := rfl
    simp [this, slash, differ]

theorem parts_eq (path : Text) : parts path = List.splitOn Ascii.slash path :=
  Text.splitOn_byte Ascii.slash path

theorem parts_append (front back : Text) :
    parts (front ++ Ascii.slash :: back) = parts front ++ parts back := by
  simp only [parts_eq, List.splitOn_append_cons_self]

theorem parts_join {names : List Text} (some : names ≠ []) (each : ∀ n ∈ names, Ascii.slash ∉ n) :
    parts (Text.join "/" names) = names := by
  rw [parts_eq]
  exact List.splitOn_intercalate _ each some

theorem parts_single {name : Text} (whole : Ascii.slash ∉ name) : parts name = [name] := by
  rw [parts_eq, List.splitOn_eq_singleton whole]

theorem no_slash_of_mem_parts {path part : Text} (member : part ∈ parts path) :
    Ascii.slash ∉ part :=
  Text.not_mem_of_mem_splitOn member

/-- The parts of a cleaned path, last first: names, and before them steps up, of which a path from
the root has none. -/
inductive Tidy (rooted : Bool) : List Text → Prop
  | ups (count : Nat) (free : rooted → count = 0) : Tidy rooted (List.replicate count parent)
  | name {name : Text} {before : List Text} (proper : IsName name) (tidy : Tidy rooted before) :
    Tidy rooted (name :: before)

theorem cleanStep_name (rooted : Bool) (done : List Text) {name : Text} (proper : IsName name) :
    cleanStep rooted done name = name :: done := by
  have not_up : name ≠ ".." := proper.not_up
  simp [cleanStep, proper.nonempty, proper.not_here, not_up]

theorem cleanStep_up (rooted : Bool) (done : List Text) :
    cleanStep rooted done parent = match done with
      | [] => if rooted then [] else [parent]
      | last :: before => if last == parent then parent :: done else before := rfl

theorem cleanStep_tidy {rooted : Bool} {done : List Text} {part : Text} (tidy : Tidy rooted done)
    (whole : Ascii.slash ∉ part) : Tidy rooted (cleanStep rooted done part) := by
  by_cases skipped : part = [] ∨ part = "."
  · have same : cleanStep rooted done part = done := by
      rcases skipped with rfl | rfl <;> simp [cleanStep]
    rwa [same]
  by_cases up : part = parent
  · subst up
    rw [cleanStep_up]
    cases tidy with
    | name proper tidy => simpa [proper.not_up] using tidy
    | ups count free =>
      cases count with
      | zero =>
        cases rooted with
        | true => exact .ups 0 fun _ => rfl
        | false => exact .ups 1 nofun
      | succ count => exact .ups (count + 2) fun h => nomatch free h
  · have proper : IsName part := ⟨fun h => skipped (.inl h), fun h => skipped (.inr h), up, whole⟩
    rw [cleanStep_name rooted done proper]
    exact .name proper tidy

theorem foldl_cleanStep_tidy {rooted : Bool} {done parts : List Text} (tidy : Tidy rooted done)
    (whole : ∀ part ∈ parts, Ascii.slash ∉ part) :
    Tidy rooted (parts.foldl (cleanStep rooted) done) := by
  induction parts generalizing done with
  | nil => exact tidy
  | cons part parts ih =>
    exact ih (cleanStep_tidy tidy (whole part (by simp))) fun part member =>
      whole part (by simp [member])

theorem tidy_cleanParts (path : Text) : Tidy (isRooted path) (cleanParts path).reverse := by
  rw [cleanParts, List.reverse_reverse]
  exact foldl_cleanStep_tidy (.ups 0 fun _ => rfl) fun part => no_slash_of_mem_parts

/-- Tidy parts are cleaned to themselves. -/
theorem Tidy.foldl {rooted : Bool} {done : List Text} (tidy : Tidy rooted done) :
    done.reverse.foldl (cleanStep rooted) [] = done := by
  induction tidy with
  | name proper tidy ih =>
    rw [List.reverse_cons, List.foldl_append, ih]
    exact cleanStep_name rooted _ proper
  | ups count free =>
    rw [List.reverse_replicate]
    induction count with
    | zero => rfl
    | succ count ih =>
      have unrooted : rooted = false := by
        cases rooted with
        | true => exact absurd (free rfl) (Nat.succ_ne_zero _)
        | false => rfl
      subst unrooted
      conv_lhs => rw [List.replicate_succ', List.foldl_append, ih nofun]
      cases count with
      | zero => rfl
      | succ count => rfl

theorem Tidy.part {rooted : Bool} {done : List Text} (tidy : Tidy rooted done) {part : Text}
    (member : part ∈ done) : part ≠ [] ∧ Ascii.slash ∉ part := by
  induction tidy with
  | ups count free =>
    rw [List.eq_of_mem_replicate member]
    decide
  | name proper tidy ih =>
    rcases List.mem_cons.1 member with rfl | member
    · exact ⟨proper.nonempty, proper.no_slash⟩
    · exact ih member

theorem part_of_mem_cleanParts {path part : Text} (member : part ∈ cleanParts path) :
    part ≠ [] ∧ Ascii.slash ∉ part :=
  (tidy_cleanParts path).part (List.mem_reverse.2 member)

theorem foldl_cleanParts (path : Text) :
    (cleanParts path).foldl (cleanStep (isRooted path)) [] = (cleanParts path).reverse := by
  have tidy := (tidy_cleanParts path).foldl
  rwa [List.reverse_reverse] at tidy

theorem join_eq_nil {names : List Text} (each : ∀ n ∈ names, n ≠ []) :
    Text.join "/" names = [] ↔ names = [] := by
  cases names with
  | nil => exact ⟨fun _ => rfl, fun _ => rfl⟩
  | cons first rest =>
    have nonempty := each first (by simp)
    cases rest <;> simp [Text.join, nonempty]

theorem isRooted_join {names : List Text} (each : ∀ n ∈ names, n ≠ [] ∧ Ascii.slash ∉ n) :
    isRooted (Text.join "/" names) = false := by
  cases names with
  | nil => rfl
  | cons first rest =>
    obtain ⟨nonempty, whole⟩ := each first (by simp)
    cases first with
    | nil => exact absurd rfl nonempty
    | cons b first =>
      have other : b ≠ Ascii.slash := fun same => whole (by simp [same])
      cases rest <;> simp [Text.join, isRooted_cons, other]

theorem isRooted_clean (path : Text) : isRooted (clean path) = isRooted path := by
  rw [clean]
  cases rooted : isRooted path with
  | true => rfl
  | false =>
    rw [if_neg Bool.false_ne_true]
    split
    · rfl
    · exact isRooted_join fun part => part_of_mem_cleanParts

/-- Cleaning once is enough. -/
theorem cleanParts_clean (path : Text) : cleanParts (clean path) = cleanParts path := by
  have folded := foldl_cleanParts path
  have whole : ∀ part ∈ cleanParts path, Ascii.slash ∉ part := fun part member =>
    (part_of_mem_cleanParts member).2
  have nonempty : ∀ part ∈ cleanParts path, part ≠ [] := fun part member =>
    (part_of_mem_cleanParts member).1
  rw [cleanParts, isRooted_clean, ← List.reverse_reverse (cleanParts path),
    List.reverse_inj, ← folded, clean]
  by_cases none : cleanParts path = []
  · rw [none]
    cases isRooted path <;> rfl
  have names := parts_join none whole
  have some : Text.join "/" (cleanParts path) ≠ [] :=
    fun empty => none ((join_eq_nil nonempty).1 empty)
  cases isRooted path with
  | false => rw [if_neg Bool.false_ne_true, if_neg (by simpa using some), names]
  | true =>
    have split : parts ("/" ++ Text.join "/" (cleanParts path)) = [] :: cleanParts path :=
      (parts_append [] _).trans (congrArg ([] :: ·) names)
    rw [if_pos rfl, split]
    rfl

theorem foldl_names (rooted : Bool) (done : List Text) {names : List Text}
    (proper : ∀ n ∈ names, IsName n) :
    names.foldl (cleanStep rooted) done = names.reverse ++ done := by
  induction names generalizing done with
  | nil => rfl
  | cons n names ih =>
    rw [List.foldl_cons, cleanStep_name _ _ (proper n (by simp)),
      ih _ fun n member => proper n (by simp [member]),
      List.reverse_cons, List.append_assoc, List.singleton_append]

theorem isRooted_append {path : Text} (started : path ≠ []) (rest : Text) :
    isRooted (path ++ rest) = isRooted path := by
  cases path with
  | nil => exact absurd rfl started
  | cons b path => rw [List.cons_append, isRooted_cons, isRooted_cons]

/-- A path that goes on from another one through some names. -/
theorem cleanParts_below {path : Text} {names : List Text} (started : path ≠ []) (some : names ≠ [])
    (proper : ∀ n ∈ names, IsName n) :
    cleanParts (path ++ Ascii.slash :: Text.join "/" names) = cleanParts path ++ names := by
  rw [cleanParts, isRooted_append started, parts_append,
    parts_join some fun n member => (proper n member).no_slash, List.foldl_append,
    foldl_names _ _ proper, List.reverse_append, List.reverse_reverse]
  rfl

theorem join_pair {path : Text} (started : path ≠ []) (inside : Text) :
    join [path, inside] = clean (path ++ Ascii.slash :: inside) := by
  have kept : [path, inside].dropWhile List.isEmpty = [path, inside] := by simp [started]
  have spelled : Text.join "/" [path, inside] = path ++ Ascii.slash :: inside := by
    simp only [Text.join, List.intercalate_cons_cons, List.intercalate_singleton, List.append_assoc]
    rfl
  rw [join, kept, ← spelled]

/-- Joining a path and some names. -/
theorem cleanParts_join {path : Text} {names : List Text} (started : path ≠ []) (some : names ≠ [])
    (proper : ∀ n ∈ names, IsName n) :
    cleanParts (join [path, Text.join "/" names]) = cleanParts path ++ names := by
  rw [join_pair started, cleanParts_clean, cleanParts_below started some proper]

theorem isRooted_joined {path : Text} (started : path ≠ []) (inside : Text) :
    isRooted (join [path, inside]) = isRooted path := by
  rw [join_pair started, isRooted_clean, isRooted_append started]

theorem dropCommon_append (front back : List Text) : dropCommon front (front ++ back) =
    ([], back) := by
  induction front with
  | nil => cases back <;> rfl
  | cons part front ih => simp [dropCommon, ih]

/-- The way to a path below. -/
theorem relative?_below {source target : Text} {names : List Text} (some : names ≠ [])
    (rooted : isRooted target = isRooted source)
    (below : cleanParts target = cleanParts source ++ names) :
    relative? source target = Option.some (Text.join "/" names) := by
  have differ : clean source ≠ clean target := by
    intro same
    have parts := congrArg cleanParts same
    rw [cleanParts_clean, cleanParts_clean, below] at parts
    exact some (List.self_eq_append_right.1 parts)
  simp [relative?, differ, rooted, below, dropCommon_append]

/-! The last part of a path, and its extension. -/

/-- The text before the last part: nothing, or a path and a slash. -/
inductive IsFolder : Text → Prop
  | none : IsFolder []
  | some (path : Text) : IsFolder (path ++ [Ascii.slash])

theorem exists_folder (path : Text) :
    ∃ front name, path = front ++ name ∧ IsFolder front ∧ Ascii.slash ∉ name := by
  induction path using List.reverseRecOn with
  | nil => exact ⟨[], [], rfl, .none, List.not_mem_nil⟩
  | append_singleton path b ih =>
    by_cases slash : b = Ascii.slash
    · subst slash
      exact ⟨_, [], (List.append_nil _).symm, .some path, List.not_mem_nil⟩
    · obtain ⟨front, name, rfl, isFolder, whole⟩ := ih
      refine ⟨front, name ++ [b], List.append_assoc _ _ _, isFolder, ?_⟩
      simp [whole, Ne.symm slash]

section
variable {front name : Text} (isFolder : IsFolder front) (whole : Ascii.slash ∉ name)
include isFolder whole

theorem file_append : file (front ++ name) = name := by
  have passed : ∀ b ∈ name.reverse, (b != Ascii.slash) = true := by
    intro b member
    have inside := List.mem_reverse.1 member
    simpa using fun same : b = Ascii.slash => whole (same ▸ inside)
  rw [file, List.reverse_append, List.takeWhile_append_of_pos passed]
  cases isFolder <;> simp

theorem folder_append : folder (front ++ name) = front := by
  rw [folder, file_append isFolder whole]
  simp

end

theorem isRooted_folder {front : Text} (isFolder : IsFolder front) {name : Text}
    (whole : Ascii.slash ∉ name) : isRooted (front ++ name) = isRooted front := by
  cases isFolder with
  | some path => exact isRooted_append (by simp) name
  | none =>
    cases name with
    | nil => rfl
    | cons b name =>
      have other : b ≠ Ascii.slash := fun same => whole (by simp [same])
      rw [List.nil_append, isRooted_cons]
      exact beq_false_of_ne other

theorem cleanParts_folder {front : Text} (isFolder : IsFolder front) {name : Text}
    (proper : IsName name) : cleanParts (front ++ name) = cleanParts front ++ [name] := by
  rw [cleanParts, isRooted_folder isFolder proper.no_slash]
  cases isFolder with
  | none =>
    rw [List.nil_append, parts_single proper.no_slash, List.foldl_cons, cleanStep_name _ _ proper]
    rfl
  | some path =>
    have before : parts (path ++ [Ascii.slash]) = parts path ++ [[]] := parts_append path []
    have after : parts (path ++ [Ascii.slash] ++ name) = parts path ++ [name] := by
      rw [List.append_assoc, List.singleton_append, parts_append, parts_single proper.no_slash]
    rw [cleanParts, before, after, List.foldl_append, List.foldl_append, List.foldl_cons,
      cleanStep_name _ _ proper]
    exact List.reverse_cons

theorem IsFolder.after {front : Text} (isFolder : IsFolder front) (path : Text) :
    IsFolder (path ++ Ascii.slash :: front) := by
  cases isFolder with
  | none => exact .some path
  | some inner =>
    have := IsFolder.some (path ++ Ascii.slash :: inner)
    rwa [List.append_assoc, List.cons_append] at this

theorem exists_folder_join (before : List Text) :
    ∃ front, IsFolder front ∧ ∀ name, Text.join "/" (before ++ [name]) = front ++ name := by
  induction before with
  | nil => exact ⟨[], .none, fun _ => List.intercalate_singleton⟩
  | cons part before ih =>
    obtain ⟨front, isFolder, spelled⟩ := ih
    refine ⟨part ++ Ascii.slash :: front, isFolder.after part, fun name => ?_⟩
    have split : Text.join "/" (part :: (before ++ [name])) =
        part ++ Ascii.slash :: Text.join "/" (before ++ [name]) := by
      rw [Text.join, List.intercalate_cons_of_ne_nil (by simp), List.append_assoc]
      rfl
    rw [List.cons_append, split, spelled]
    simp

/-- A cleaned path ends in its last name. -/
theorem exists_folder_clean {path name : Text} {before : List Text} (proper : IsName name)
    (last : cleanParts path = before ++ [name]) :
    ∃ front, IsFolder front ∧ clean path = front ++ name := by
  obtain ⟨front, isFolder, spelled⟩ := exists_folder_join before
  rw [clean, last, spelled]
  split
  · exact ⟨_, isFolder.after [], rfl⟩
  · have some : (front ++ name).isEmpty = false := by simp [proper.nonempty]
    simp only [some]
    exact ⟨front, isFolder, rfl⟩

section
variable {front name : Text} (isFolder : IsFolder front) (whole : Ascii.slash ∉ name)
include isFolder whole

theorem extension_append : extension (front ++ name) = extension name := by
  have alone : file name = name := file_append .none whole
  rw [extension, extension, file_append isFolder whole, alone]

end

theorem extension_isSuffix {name : Text} (whole : Ascii.slash ∉ name) :
    extension name <:+ name := by
  have alone : file name = name := file_append .none whole
  rw [extension, alone]
  have split := List.takeWhile_append_dropWhile (p := (· != Ascii.dot)) (l := name.reverse)
  cases rest : name.reverse.dropWhile (· != Ascii.dot) with
  | nil =>
    rw [rest, List.append_nil] at split
    simp [split]
  | cons b rest' =>
    have dot : b = Ascii.dot := by
      have := List.head?_dropWhile_not (· != Ascii.dot) name.reverse
      rw [rest] at this
      simpa using this
    split
    · exact List.nil_suffix
    · refine ⟨rest'.reverse, ?_⟩
      rw [rest, dot] at split
      have := congrArg List.reverse split
      simpa using this

theorem cutEnd_append (start ending : Text) : Text.cutEnd ending (start ++ ending) = start := by
  simp [Text.cutEnd, Text.cutEnd?]

theorem withoutExtension_append {front name : Text} (isFolder : IsFolder front)
    (whole : Ascii.slash ∉ name) :
    withoutExtension (front ++ name) = front ++ withoutExtension name := by
  obtain ⟨stem, split⟩ := extension_isSuffix whole
  rw [withoutExtension, withoutExtension, extension_append isFolder whole]
  generalize extension name = ending at split
  rw [← split, ← List.append_assoc, cutEnd_append, cutEnd_append]

theorem withoutExtension_append_extension (path : Text) :
    withoutExtension path ++ extension path = path := by
  obtain ⟨front, name, rfl, isFolder, whole⟩ := exists_folder path
  obtain ⟨stem, split⟩ := extension_isSuffix whole
  have cut : withoutExtension name = stem := by
    rw [withoutExtension]
    generalize extension name = ending at split
    rw [← split, cutEnd_append]
  rw [withoutExtension_append isFolder whole, extension_append isFolder whole, cut,
    List.append_assoc, split]

theorem isName_output {stem : Text} (whole : Ascii.slash ∉ stem) : IsName (stem ++ ".js") := by
  have long : 3 ≤ (stem ++ (".js" : Text)).length := by
    rw [List.length_append]
    exact Nat.le_add_left 3 _
  refine ⟨?_, ?_, ?_, ?_⟩
  · intro same
    exact absurd (same ▸ long) (by decide)
  · intro same
    exact absurd (same ▸ long) (by decide)
  · intro same
    exact absurd (same ▸ long) (by decide)
  · intro inside
    rcases List.mem_append.1 inside with inside | inside
    · exact whole inside
    · exact absurd inside (by decide)

theorem extension_output (stem : Text) : extension (stem ++ ".js") = ".js" := by
  obtain ⟨front, name, rfl, isFolder, whole⟩ := exists_folder stem
  have proper := isName_output whole
  have alone : file (name ++ ".js") = name ++ ".js" := file_append .none proper.no_slash
  have reversed : (name ++ (".js" : Text)).reverse = 115 :: 106 :: Ascii.dot :: name.reverse := by
    rw [List.reverse_append]
    rfl
  have ending : ((115 :: 106 :: Ascii.dot :: name.reverse).takeWhile (· != Ascii.dot)).reverse =
      [106, 115] := rfl
  have shorter : ([106, 115] : Text).length ≠ (name ++ (".js" : Text)).length := by
    rw [List.length_append]
    exact Nat.ne_of_lt (Nat.le_add_left 3 _)
  rw [List.append_assoc, extension_append isFolder proper.no_slash, extension, alone,
    reversed, ending, if_neg (by simpa using shorter)]
  rfl

theorem withoutExtension_output (stem : Text) : withoutExtension (stem ++ ".js") = stem := by
  rw [withoutExtension, extension_output, cutEnd_append]

theorem getLast?_parts (path : Text) : (parts path).getLast? = some (file path) := by
  obtain ⟨front, name, rfl, isFolder, whole⟩ := exists_folder path
  rw [file_append isFolder whole]
  cases isFolder with
  | none => rw [List.nil_append, parts_single whole, List.getLast?_singleton]
  | some path =>
    rw [List.append_assoc, List.singleton_append, parts_append, parts_single whole,
      List.getLast?_append, List.getLast?_singleton, Option.some_or]

theorem base_append {front name : Text} (isFolder : IsFolder front) (proper : IsName name) :
    base (front ++ name) = name := by
  have some : front ++ name ≠ [] := by simp [proper.nonempty]
  have kept : Text.dropEndWhile (· == Ascii.slash) (front ++ name) = front ++ name := by
    obtain ⟨start, last, rfl⟩ : ∃ start last, name = start ++ [last] :=
      ⟨_, _, (List.dropLast_concat_getLast proper.nonempty).symm⟩
    have other : last ≠ Ascii.slash := fun same => proper.no_slash (by simp [same])
    rw [Text.dropEndWhile, ← List.append_assoc, List.reverse_append, List.reverse_singleton,
      List.singleton_append, List.dropWhile_cons_of_neg (by simpa using other)]
    simp
  simp [base, some, kept, file_append isFolder proper.no_slash]

end Path

end ShellToDeno
