import ShellToDeno.Proofs.Batch.Entries
import ShellToDeno.Proofs.Batch.Outputs

/-!
# Files that grow

`Grown files after writes` says that `after` holds what `files` holds and the files that were
written, with the directories above them. Directories stay directories and files stay files, so a
path that led somewhere, or that was stopped by something that is there, does so still. Only a path
on which something is missing can come to lead further; `Leads` describes the paths that outputs
have, on which this happens only through a new file at, above or below their own place.
-/
namespace ShellToDeno

open ShellToDeno.Path

/-- The content of a file, none for a directory. -/
def Entry.content? : Entry → Option Text
  | .file content _ => some content
  | .directory _ => none

theorem Entry.find?_append (first second : List Text) (root : Entry) :
    root.find? (first ++ second) = (root.find? first).bind (Entry.find? second) := by
  induction first generalizing root with
  | nil => rfl
  | cons name first ih =>
    cases root with
    | file => rfl
    | directory entries =>
      rw [List.cons_append, find?_cons, find?_cons, Option.bind_assoc]
      exact congrArg _ (funext ih)

/-- A file that is written. -/
structure Write where
  path : Text
  content : Text
  executable : Bool
  deriving DecidableEq, Repr

namespace Files

def apply (files : Files) (w : Write) : Files := files.write w.path w.content w.executable

/-- Writes files one after the other. -/
def applyAll (files : Files) (writes : List Write) : Files := writes.foldl apply files

/-- What is at the end of a path: an error, nothing but a directory, or the content of a file. -/
def look (files : Files) (path : Text) : Except FileError (Option Text) :=
  (files.stat path).map Entry.content?

/-- Whether a file can be written: its path starts in a directory, its parts are not too long, no
file is in its way and it is no directory. -/
def canWrite (files : Files) (path : Text) : Bool :=
  (files.root.find? (files.start path)).any Entry.isDirectory &&
    (parts path).all (fun part => decide (part.length ≤ 255)) &&
    Entry.isFree (files.spelled path) (some files.root)

/-- The place to which one part of a path leads, whether it exists or not. -/
def spelledStep (location : List Text) (part : Text) : List Text :=
  if part.isEmpty || part == "." then location
  else if part == ".." then location.dropLast
  else location ++ [part]

variable {files after : Files} {path : Text} {writes : List Write}

theorem spelled_eq (files : Files) (path : Text) :
    files.spelled path = (parts path).foldl spelledStep (files.start path) := rfl

theorem spelledStep_name {name : Text} (proper : IsName name) (location : List Text) :
    spelledStep location name = location ++ [name] := by
  have not_up : name ≠ ".." := proper.not_up
  simp [spelledStep, proper.nonempty, proper.not_here, not_up]

theorem foldl_spelledStep {names : List Text} (proper : ∀ name ∈ names, IsName name)
    (location : List Text) : names.foldl spelledStep location = location ++ names := by
  induction names generalizing location with
  | nil => simp
  | cons name names ih =>
    rw [List.foldl_cons, spelledStep_name (proper name (by simp)),
      ih (fun other member => proper other (by simp [member])), List.append_assoc,
      List.singleton_append]

/-! Following a path. -/

/-- One step from a directory. -/
theorem follow_cons {location : List Text} {entries : List (Text × Entry)}
    (directory : files.root.find? location = some (.directory entries)) (part : Text)
    (rest : List Text) : files.follow location (part :: rest) =
      if part.isEmpty || part == "." then files.follow location rest
      else if part == ".." then files.follow location.dropLast rest
      else if part.length > 255 then .error .nameTooLong
      else if (files.root.find? (location ++ [part])).isSome then
        files.follow (location ++ [part]) rest
      else .error .missing := by
  have there : files.root.find? (location ++ [part]) = entries.lookup part := by
    rw [Entry.find?_append, directory, Option.bind_some, Entry.find?_cons]
    cases entries.lookup part <;> rfl
  rw [follow, directory, there]

theorem follow_append (location first second : List Text) :
    files.follow location (first ++ second) =
      (files.follow location first).bind (files.follow · second) := by
  induction first generalizing location with
  | nil => rfl
  | cons part first ih =>
    rw [List.cons_append, follow, follow]
    cases files.root.find? location with
    | none => rfl
    | some entry =>
      cases entry with
      | file => rfl
      | directory entries =>
        dsimp only
        repeat' split
        · exact ih _
        · exact ih _
        · rfl
        · exact ih _
        · rfl

theorem spelled_of_follow {location parts final : List Text}
    (followed : files.follow location parts = .ok final) :
    final = parts.foldl spelledStep location := by
  induction parts generalizing location with
  | nil =>
    cases followed
    rfl
  | cons part parts ih =>
    rw [List.foldl_cons, spelledStep]
    rw [follow] at followed
    cases here : files.root.find? location with
    | none => simp [here] at followed
    | some entry =>
      cases entry with
      | file => simp [here] at followed
      | directory entries =>
        simp only [here] at followed
        split at followed
        · next same => rw [if_pos same]; exact ih followed
        · next other =>
          rw [if_neg other]
          split at followed
          · next up => rw [if_pos up]; exact ih followed
          · next below =>
            rw [if_neg below]
            split at followed
            · cases followed
            · split at followed
              · exact ih followed
              · cases followed

/-- What can be seen at the end of a path is what is at its place. -/
theorem of_look {found : Option Text} (seen : files.look path = .ok found) :
    path ≠ [] ∧ files.follow (files.start path) (parts path) = .ok (files.spelled path) ∧
      ∃ entry, files.root.find? (files.spelled path) = some entry ∧ entry.content? = found := by
  rw [look] at seen
  cases stat : files.stat path with
  | error e => simp [stat, Except.map] at seen
  | ok entry =>
    rw [stat] at seen
    cases seen
    obtain ⟨started, location, followed, there⟩ := of_stat stat
    have place := spelled_of_follow followed
    rw [← spelled_eq] at place
    subst place
    exact ⟨started, followed, entry, there, rfl⟩

/-- The place of a path that can be a path. -/
theorem locate_eq_follow (started : path ≠ []) (proper : (0 : UInt8) ∉ path) :
    files.locate path = files.follow (files.start path) (parts path) := by
  have clear : path.any (· == 0) = false := by
    rw [List.any_eq_false]
    intro b member zero
    exact proper (beq_iff_eq.1 zero ▸ member)
  simp [locate, started, clear]

theorem look_eq_of_follow (started : path ≠ []) (proper : (0 : UInt8) ∉ path) :
    files.look path = (files.follow (files.start path) (parts path)).bind fun location =>
      match files.root.find? location with
      | some entry => .ok entry.content?
      | none => .error .missing := by
  rw [look, stat, locate_eq_follow started proper]
  cases files.follow (files.start path) (parts path) with
  | error => rfl
  | ok location =>
    dsimp only [Except.bind]
    cases files.root.find? location <;> rfl

/-! Growth. -/

/-- Files that hold what others hold, and the files that were written. -/
structure Grown (files after : Files) (writes : List Write) : Prop where
  here : after.here = files.here
  beside : ∀ location, (∀ w ∈ writes, ¬location <+: files.spelled w.path) →
    after.root.find? location = files.root.find? location
  above : ∀ w ∈ writes, ∀ location, location <+: files.spelled w.path →
    location ≠ files.spelled w.path →
      (∃ entries, after.root.find? location = some (.directory entries)) ∧
        ∀ content executable, files.root.find? location ≠ some (.file content executable)
  written : ∀ w ∈ writes,
    after.root.find? (files.spelled w.path) = some (.file w.content w.executable) ∧
      ∀ entries, files.root.find? (files.spelled w.path) ≠ some (.directory entries)

theorem start_of_here (here : after.here = files.here) (path : Text) :
    after.start path = files.start path := by
  rw [start, start, here]

theorem spelled_of_here (here : after.here = files.here) (path : Text) :
    after.spelled path = files.spelled path := by
  rw [spelled_eq, spelled_eq, start_of_here here]

namespace Grown
variable {location : List Text}

theorem refl (files : Files) : Grown files files [] := by
  constructor
  · rfl
  · exact fun _ _ => rfl
  · exact nofun
  · exact nofun

variable (grown : Grown files after writes)
include grown

theorem start (path : Text) : after.start path = files.start path := start_of_here grown.here path

theorem spelled (path : Text) : after.spelled path = files.spelled path :=
  spelled_of_here grown.here path

/-- A location is at or above a new file, or all is as it was. -/
theorem found_cases (location : List Text) :
    after.root.find? location = files.root.find? location ∨
      ∃ w ∈ writes, location <+: files.spelled w.path := by
  by_cases above : ∃ w ∈ writes, location <+: files.spelled w.path
  · exact .inr above
  · exact .inl (grown.beside location fun w member within => above ⟨w, member, within⟩)

theorem directory {entries : List (Text × Entry)}
    (found : files.root.find? location = some (.directory entries)) :
    ∃ entries, after.root.find? location = some (.directory entries) := by
  rcases grown.found_cases location with same | ⟨w, member, within⟩
  · exact ⟨entries, same.trans found⟩
  · by_cases here : location = files.spelled w.path
    · subst here
      exact absurd found ((grown.written w member).2 entries)
    · exact (grown.above w member location within here).1

theorem file_elsewhere {content : Text} {executable : Bool}
    (elsewhere : ∀ w ∈ writes, location ≠ files.spelled w.path)
    (found : files.root.find? location = some (.file content executable)) :
    after.root.find? location = some (.file content executable) := by
  rcases grown.found_cases location with same | ⟨w, member, within⟩
  · exact same.trans found
  · exact absurd found
      ((grown.above w member location within (elsewhere w member)).2 content executable)

theorem file {content : Text} {executable : Bool}
    (found : files.root.find? location = some (.file content executable)) :
    ∃ content executable, after.root.find? location = some (.file content executable) := by
  by_cases anew : ∃ w ∈ writes, location = files.spelled w.path
  · obtain ⟨w, member, rfl⟩ := anew
    exact ⟨_, _, (grown.written w member).1⟩
  · exact ⟨_, _, grown.file_elsewhere (fun w member same => anew ⟨w, member, same⟩) found⟩

theorem isSome (found : (files.root.find? location).isSome) :
    (after.root.find? location).isSome := by
  obtain ⟨entry, found⟩ := Option.isSome_iff_exists.1 found
  cases entry with
  | file =>
    obtain ⟨content, executable, found⟩ := grown.file found
    simp [found]
  | directory =>
    obtain ⟨entries, found⟩ := grown.directory found
    simp [found]

/-- A way on which nothing is missing stays as it is. -/
theorem follow {location parts : List Text}
    (known : files.follow location parts ≠ .error .missing) :
    after.follow location parts = files.follow location parts := by
  induction parts generalizing location with
  | nil => rfl
  | cons part parts ih =>
    cases here : files.root.find? location with
    | none => simp [Files.follow, here] at known
    | some entry =>
      cases entry with
      | file =>
        obtain ⟨content, executable, there⟩ := grown.file here
        simp [Files.follow, here, there]
      | directory =>
        obtain ⟨entries, there⟩ := grown.directory here
        rw [follow_cons here] at known ⊢
        rw [follow_cons there]
        by_cases skipped : (part.isEmpty || part == ".") = true
        · rw [if_pos skipped] at known ⊢
          rw [if_pos skipped]
          exact ih known
        rw [if_neg skipped] at known ⊢
        rw [if_neg skipped]
        by_cases up : (part == "..") = true
        · rw [if_pos up] at known ⊢
          rw [if_pos up]
          exact ih known
        rw [if_neg up] at known ⊢
        rw [if_neg up]
        by_cases long : part.length > 255
        · rw [if_pos long, if_pos long]
        rw [if_neg long] at known ⊢
        rw [if_neg long]
        by_cases found : (files.root.find? (location ++ [part])).isSome
        · rw [if_pos found] at known ⊢
          rw [if_pos (grown.isSome found)]
          exact ih known
        · rw [if_neg found] at known
          exact absurd rfl known

/-- What could be seen can still be seen, unless it has been written anew. -/
theorem look (known : files.look path ≠ .error .missing)
    (elsewhere : ∀ w ∈ writes, files.spelled path ≠ files.spelled w.path) :
    after.look path = files.look path := by
  by_cases started : path = []
  · subst started
    exact absurd rfl known
  by_cases proper : (0 : UInt8) ∈ path
  · have bad : path.any (· == 0) = true := List.any_eq_true.2 ⟨0, proper, rfl⟩
    simp [Files.look, stat, locate, started, bad]
  rw [look_eq_of_follow started proper] at known
  have followed : files.follow (files.start path) (parts path) ≠ .error .missing := by
    intro missing
    rw [missing] at known
    exact known rfl
  rw [look_eq_of_follow started proper, look_eq_of_follow started proper, grown.start,
    grown.follow followed]
  cases result : files.follow (files.start path) (parts path) with
  | error => rfl
  | ok location =>
    have place := spelled_of_follow result
    rw [← spelled_eq] at place
    rw [result] at known
    dsimp only [Except.bind] at known ⊢
    cases found : files.root.find? location with
    | none =>
      rw [found] at known
      exact absurd rfl known
    | some entry =>
      cases entry with
      | file =>
        rw [← place] at elsewhere
        rw [grown.file_elsewhere elsewhere found]
      | directory =>
        obtain ⟨entries, there⟩ := grown.directory found
        rw [there]
        rfl

theorem isFree {place : List Text}
    (apart : ∀ w ∈ writes, Entry.Apart place (files.spelled w.path))
    (free : Entry.isFree place (some files.root) = true) :
    Entry.isFree place (some after.root) = true := by
  obtain ⟨way, last⟩ := Entry.isFree_iff.1 free
  apply Entry.isFree_iff.2
  constructor
  · intro location within differ content executable found
    rcases grown.found_cases location with same | ⟨w, member, above⟩
    · exact way location within differ content executable (same.symm.trans found)
    · have below : location ≠ files.spelled w.path := by
        rintro rfl
        exact (apart w member).2 within
      obtain ⟨entries, directory⟩ := (grown.above w member location above below).1
      rw [directory] at found
      cases found
  · intro entries found
    rw [grown.beside place fun w member => (apart w member).1] at found
    exact last entries found

/-- One more file. -/
theorem write {new : Write}
    (apart : ∀ w ∈ writes, Entry.Apart (files.spelled new.path) (files.spelled w.path))
    (free : Entry.isFree (files.spelled new.path) (some files.root) = true) :
    Grown files (after.apply new) (writes ++ [new]) := by
  have still := grown.isFree apart free
  obtain ⟨way, last⟩ := Entry.isFree_iff.1 free
  have root : (after.apply new).root =
      after.root.put (files.spelled new.path) (.file new.content new.executable) := by
    rw [apply, Files.write, grown.spelled]
  have hollow {rest : List Text} (below : rest ≠ []) :
      Entry.find? rest (.file new.content new.executable) = none := Entry.find?_below_file below _ _
  constructor
  · exact grown.here
  · intro location beside
    rw [root, Entry.find?_put_beside hollow still (beside new (by simp))]
    exact grown.beside location fun w member => beside w (by simp [member])
  · intro w member location within differ
    rw [root]
    rcases List.mem_append.1 member with earlier | last
    · obtain ⟨⟨entries, directory⟩, old⟩ := grown.above w earlier location within differ
      refine ⟨?_, old⟩
      by_cases above : location <+: files.spelled new.path
      · have below : location ≠ files.spelled new.path := by
          rintro rfl
          exact (apart w earlier).1 within
        exact Entry.find?_put_above still above below
      · exact ⟨entries, (Entry.find?_put_beside hollow still above).trans directory⟩
    · rw [List.mem_singleton.1 last] at within differ
      exact ⟨Entry.find?_put_above still within differ, way location within differ⟩
  · intro w member
    rw [root]
    rcases List.mem_append.1 member with earlier | newest
    · obtain ⟨found, old⟩ := grown.written w earlier
      exact ⟨(Entry.find?_put_beside hollow still (apart w earlier).2).trans found, old⟩
    · rw [List.mem_singleton.1 newest]
      exact ⟨Entry.find?_put_self still, last⟩

/-- What could be seen has been written anew. -/
theorem look_anew {w : Write} (member : w ∈ writes) {found : Option Text}
    (seen : files.look w.path = .ok found) : after.look w.path = .ok (some w.content) := by
  obtain ⟨started, followed, entry, there, -⟩ := of_look seen
  have proper : (0 : UInt8) ∉ w.path := by
    intro zero
    have bad : w.path.any (· == 0) = true := List.any_eq_true.2 ⟨0, zero, rfl⟩
    simp [Files.look, stat, locate, started, bad, Except.map] at seen
  rw [look_eq_of_follow started proper, grown.start, grown.follow (by rw [followed]; simp),
    followed]
  dsimp only [Except.bind]
  rw [(grown.written w member).1]
  rfl

end Grown

/-- Files that can be written, none of them at or below the place of another one. -/
theorem grown_applyAll (free : ∀ w ∈ writes,
    Entry.isFree (files.spelled w.path) (some files.root) = true)
    (apart : writes.Pairwise fun v w => Entry.Apart (files.spelled v.path) (files.spelled w.path)) :
    Grown files (files.applyAll writes) writes := by
  induction writes using List.reverseRecOn with
  | nil => exact .refl files
  | append_singleton writes new ih =>
    obtain ⟨earlier, -, last⟩ := List.pairwise_append.1 apart
    have grown := ih (fun w member => free w (by simp [member])) earlier
    rw [applyAll, List.foldl_append]
    exact grown.write (fun w member => (last w member new (by simp)).symm) (free new (by simp))

/-- A file that can be written can be written after another one that is apart from it. -/
theorem canWrite_apply {w : Write} (writable : files.canWrite path = true)
    (free : files.canWrite w.path = true)
    (apart : Entry.Apart (files.spelled path) (files.spelled w.path)) :
    (files.apply w).canWrite path = true := by
  simp only [canWrite, Bool.and_eq_true] at writable free ⊢
  have grown : Grown files (files.apply w) [w] :=
    (Grown.refl files).write (by simp) free.2
  rw [grown.start, grown.spelled]
  refine ⟨⟨?_, writable.1.2⟩, grown.isFree (by simpa using apart) writable.2⟩
  obtain ⟨entry, found, isDirectory⟩ := (Option.any_eq_true _ _).1 writable.1.1
  cases entry with
  | file => cases isDirectory
  | directory entries =>
    obtain ⟨entries, found⟩ := grown.directory found
    rw [found]
    rfl

/-- The order in which files are written at different places does not matter. -/
theorem applyAll_perm {others : List Write} (order : writes.Perm others)
    (apart : ∀ v ∈ writes, ∀ w ∈ writes, v ≠ w →
      Entry.Apart (files.spelled v.path) (files.spelled w.path)) :
    files.applyAll writes = files.applyAll others := by
  have split (list : List Write) : files.applyAll list =
      ⟨list.foldl (fun root w => root.put (files.spelled w.path) (.file w.content w.executable))
        files.root, files.here⟩ := by
    induction list using List.reverseRecOn with
    | nil => rfl
    | append_singleton list w ih =>
      rw [applyAll] at ih ⊢
      rw [List.foldl_append, ih, List.foldl_append]
      rfl
  rw [split, split]
  congr 1
  apply order.foldl_eq'
  intro v first w second root
  by_cases same : v = w
  · rw [same]
  · exact Entry.put_comm (apart v first w second same).symm

/-! Paths of outputs. -/

/-- A path leads to a directory that is there, and from it on through names. -/
structure Leads (files : Files) (path : Text) (base names : List Text) : Prop where
  started : path ≠ []
  proper : (0 : UInt8) ∉ path
  way : ∃ before, parts path = before ++ names ∧ files.follow (files.start path) before = .ok base
  directory : ∃ entries, files.root.find? base = some (.directory entries)
  names : ∀ name ∈ names, IsName name ∧ name.length ≤ 255

/-- Above an entry there are only directories. -/
theorem exists_directory_above {location rest : List Text} (further : rest ≠ [])
    (found : (files.root.find? (location ++ rest)).isSome) :
    ∃ entries, files.root.find? location = some (.directory entries) := by
  rw [Entry.find?_append] at found
  cases here : files.root.find? location with
  | none => simp [here] at found
  | some entry =>
    cases entry with
    | directory entries => exact ⟨entries, rfl⟩
    | file content executable =>
      rw [here, Option.bind_some, Entry.find?_below_file further] at found
      cases found

/-- The places on the way to a directory are directories. -/
theorem exists_directory_of_prefix {location base : List Text} (within : location <+: base)
    (directory : ∃ entries, files.root.find? base = some (.directory entries)) :
    ∃ entries, files.root.find? location = some (.directory entries) := by
  obtain ⟨rest, rfl⟩ := within
  by_cases last : rest = []
  · rwa [last, List.append_nil] at directory
  · obtain ⟨entries, here⟩ := directory
    exact exists_directory_above last (Option.isSome_of_eq_some here)

/-- Following names from a directory. -/
theorem follow_names {base names : List Text}
    (directory : ∃ entries, files.root.find? base = some (.directory entries))
    (proper : ∀ name ∈ names, IsName name ∧ name.length ≤ 255) :
    files.follow base names =
      if (files.root.find? (base ++ names)).isSome then .ok (base ++ names)
      else if Entry.isFree (base ++ names) (some files.root) then .error .missing
      else .error .notDirectory := by
  induction names generalizing base with
  | nil =>
    obtain ⟨entries, here⟩ := directory
    rw [List.append_nil, here]
    rfl
  | cons name names ih =>
    obtain ⟨entries, here⟩ := directory
    obtain ⟨isName, short⟩ := proper name (by simp)
    have further : ∀ other ∈ names, IsName other ∧ other.length ≤ 255 := fun other member =>
      proper other (by simp [member])
    have up : name ≠ ".." := isName.not_up
    have split : base ++ name :: names = (base ++ [name]) ++ names := by simp
    rw [follow_cons here, if_neg (by simp [isName.nonempty, isName.not_here]),
      if_neg (by simp [up]), if_neg (by omega), split]
    cases there : files.root.find? (base ++ [name]) with
    | none =>
      have nothing : files.root.find? ((base ++ [name]) ++ names) = none := by
        rw [Entry.find?_append, there]
        rfl
      have free : Entry.isFree ((base ++ [name]) ++ names) (some files.root) = true := by
        apply Entry.isFree_iff.2
        rw [nothing]
        refine ⟨?_, nofun⟩
        rintro above ⟨rest, whole⟩ _ content executable found
        have within : above <+: base ∨ base ++ [name] <+: above := by
          rcases List.prefix_or_prefix_of_prefix ⟨rest, whole⟩ (List.prefix_append _ _) with
            low | high
          · rcases List.prefix_concat_iff.1 low with same | low
            · exact .inr ⟨[], by rw [same, List.append_nil]⟩
            · exact .inl low
          · exact .inr high
        rcases within with low | ⟨back, rfl⟩
        · obtain ⟨entries, directory⟩ := exists_directory_of_prefix low ⟨_, here⟩
          rw [directory] at found
          cases found
        · rw [Entry.find?_append, there] at found
          cases found
      rw [nothing, free]
      rfl
    | some entry =>
      cases entry with
      | directory inner => exact ih ⟨inner, there⟩ further
      | file content executable =>
        cases names with
        | nil => simp [there, Files.follow]
        | cons next names =>
          have nothing : files.root.find? ((base ++ [name]) ++ next :: names) = none := by
            rw [Entry.find?_append, there]
            rfl
          have blocked : Entry.isFree ((base ++ [name]) ++ next :: names) (some files.root) =
              false := by
            rw [← Bool.not_eq_true, Entry.isFree_iff]
            rintro ⟨way, -⟩
            exact way _ (List.prefix_append _ _) (by simp) content executable there
          rw [nothing, blocked, Files.follow, there]
          rfl

namespace Leads
variable {base names : List Text} (leads : Leads files path base names)
include leads

theorem place : files.spelled path = base ++ names := by
  obtain ⟨before, split, followed⟩ := leads.way
  rw [spelled_eq, split, List.foldl_append, ← spelled_of_follow followed]
  exact foldl_spelledStep (fun name member => (leads.names name member).1) base

theorem look : files.look path = match files.root.find? (files.spelled path) with
    | some entry => .ok entry.content?
    | none => if Entry.isFree (files.spelled path) (some files.root) then .error .missing
      else .error .notDirectory := by
  obtain ⟨before, split, followed⟩ := leads.way
  rw [look_eq_of_follow leads.started leads.proper, split, follow_append, followed, leads.place]
  dsimp only [Except.bind]
  rw [follow_names leads.directory leads.names]
  cases found : files.root.find? (base ++ names) with
  | some entry => simp [found]
  | none =>
    simp only [Option.isSome_none, Bool.false_eq_true, if_false]
    by_cases free : Entry.isFree (base ++ names) (some files.root) = true
    · rw [if_pos free, if_pos free]
    · rw [if_neg free, if_neg free]

theorem grown (grown : Grown files after writes) : Leads after path base names := by
  obtain ⟨before, split, followed⟩ := leads.way
  obtain ⟨entries, directory⟩ := leads.directory
  constructor
  · exact leads.started
  · exact leads.proper
  · refine ⟨before, split, ?_⟩
    rw [grown.start, grown.follow (by rw [followed]; simp), followed]
  · exact grown.directory directory
  · exact leads.names

/-- What is missing stays so as long as nothing is written at its place, above it or below it. -/
theorem look_missing (grown : Grown files after writes)
    (apart : ∀ w ∈ writes, Entry.Apart (files.spelled path) (files.spelled w.path))
    (missing : files.look path = .error .missing) : after.look path = .error .missing := by
  rw [leads.look] at missing
  cases found : files.root.find? (files.spelled path) with
  | some entry => simp [found] at missing
  | none =>
    simp only [found] at missing
    have free : Entry.isFree (files.spelled path) (some files.root) = true := by
      by_contra blocked
      rw [if_neg blocked] at missing
      cases missing
    rw [(leads.grown grown).look, grown.spelled,
      grown.beside _ fun w member => (apart w member).1, found]
    exact if_pos (grown.isFree apart free)

theorem look_anew (grown : Grown files after writes) {w : Write} (member : w ∈ writes)
    (same : w.path = path) : after.look path = .ok (some w.content) := by
  subst same
  rw [(leads.grown grown).look, grown.spelled, (grown.written w member).1]
  rfl

end Leads

end Files

end ShellToDeno
