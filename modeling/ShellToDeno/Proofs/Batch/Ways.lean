import ShellToDeno.Proofs.Batch.Growth

/-!
# Ways through the files

Cleaning a path does not change where it leads, so what an expansion finds below a directory can be
seen under its path. The path of an output leads from a directory that is there through names.
-/
namespace ShellToDeno

open ShellToDeno.Path

namespace Path

/-- The parts of a path before the last one are those of its folder. -/
theorem parts_folder {front : Text} (isFolder : IsFolder front) :
    ∃ before, ∀ name, Ascii.slash ∉ name → parts (front ++ name) = before ++ [name] := by
  cases isFolder with
  | none => exact ⟨[], fun name whole => parts_single whole⟩
  | some path =>
    refine ⟨parts path, fun name whole => ?_⟩
    rw [List.append_assoc, List.singleton_append, parts_append, parts_single whole]

/-- A cleaned path goes up first and then through names. -/
theorem Tidy.split {rooted : Bool} {done : List Text} (tidy : Tidy rooted done) :
    ∃ count names, done.reverse = List.replicate count parent ++ names ∧
      (rooted = true → count = 0) ∧ ∀ name ∈ names, IsName name := by
  induction tidy with
  | ups count free => exact ⟨count, [], by simp, free, nofun⟩
  | name proper tidy ih =>
    rename_i name before
    obtain ⟨count, names, split, free, each⟩ := ih
    refine ⟨count, names ++ [name], by rw [List.reverse_cons, split, List.append_assoc], free, ?_⟩
    intro other member
    rcases List.mem_append.1 member with member | member
    · exact each other member
    · exact List.mem_singleton.1 member ▸ proper

theorem clean_ne_nil (path : Text) : clean path ≠ [] := by
  rw [clean]
  split
  · exact List.cons_ne_nil _ _
  · split
    · exact List.cons_ne_nil _ _
    · next some => simpa using some

theorem mem_join {names : List Text} {b : UInt8} (other : b ≠ Ascii.slash) :
    b ∈ Text.join "/" names ↔ ∃ name ∈ names, b ∈ name := by
  have apart : b ∉ ("/" : Text) := fun same => other (List.mem_singleton.1 same)
  induction names with
  | nil => simp [Text.join, List.intercalate]
  | cons name names ih =>
    cases names with
    | nil => simp [Text.join]
    | cons next names =>
      have split : Text.join "/" (name :: next :: names) =
          name ++ "/" ++ Text.join "/" (next :: names) := List.intercalate_cons_cons
      simp only [split, List.mem_append, apart, or_false, ih, List.mem_cons]
      simp

theorem mem_of_mem_foldl_cleanStep {rooted : Bool} {done parts : List Text} {part : Text}
    (member : part ∈ parts.foldl (cleanStep rooted) done) : part ∈ done ∨ part ∈ parts := by
  induction parts generalizing done with
  | nil => exact .inl member
  | cons first parts ih =>
    rcases ih member with old | later
    · rw [cleanStep.eq_def] at old
      grind
    · exact .inr (List.mem_cons_of_mem _ later)

/-- Cleaning adds nothing but slashes and dots. -/
theorem zero_not_mem_clean {path : Text} (proper : (0 : UInt8) ∉ path) :
    (0 : UInt8) ∉ clean path := by
  have slash : (0 : UInt8) ≠ Ascii.slash := by decide
  have collected : (0 : UInt8) ∉ Text.join "/" (cleanParts path) := by
    rw [mem_join slash]
    rintro ⟨part, member, zero⟩
    rw [cleanParts, List.mem_reverse] at member
    rcases mem_of_mem_foldl_cleanStep member with none | among
    · cases none
    · apply proper
      have whole : Text.join "/" (parts path) = path := by
        rw [parts_eq]
        exact List.intercalate_splitOn _
      rw [← whole, mem_join slash]
      exact ⟨part, among, zero⟩
  rw [clean]
  split
  · intro zero
    rcases List.mem_append.1 zero with first | later
    · revert first
      decide
    · exact collected later
  · split
    · decide
    · exact collected

/-- The parts of a cleaned path are those that cleaning collects, after some that stay in place. -/
theorem parts_clean (path : Text) : ∃ still, parts (clean path) = still ++ cleanParts path ∧
    ∀ part ∈ still, (part.isEmpty || part == ".") = true := by
  by_cases none : cleanParts path = []
  · cases rooted : isRooted path with
    | true =>
      refine ⟨[[], []], ?_, by decide⟩
      rw [clean, none, rooted]
      rfl
    | false =>
      refine ⟨["."], ?_, by decide⟩
      rw [clean, none, rooted]
      rfl
  · have whole := parts_join none fun part member => (part_of_mem_cleanParts member).2
    have joined : Text.join "/" (cleanParts path) ≠ [] := fun empty =>
      none ((join_eq_nil fun part member => (part_of_mem_cleanParts member).1).1 empty)
    cases rooted : isRooted path with
    | true =>
      refine ⟨[[]], ?_, by decide⟩
      rw [clean, rooted, if_pos rfl]
      exact (parts_append [] _).trans (congrArg ([] :: ·) whole)
    | false =>
      refine ⟨[], ?_, List.forall_mem_nil _⟩
      rw [clean, rooted, if_neg Bool.false_ne_true, if_neg (by simpa using joined), whole]
      rfl

end Path

namespace Files
variable {files : Files} {path : Text}

theorem proper_of_missing (missing : files.look path = .error .missing) (started : path ≠ []) :
    (0 : UInt8) ∉ path := by
  intro zero
  have bad : path.any (· == 0) = true := List.any_eq_true.2 ⟨0, zero, rfl⟩
  simp [look, stat, locate, started, bad, Except.map] at missing

theorem follow_ups (count : Nat) {location : List Text}
    (directory : ∃ entries, files.root.find? location = some (.directory entries)) :
    ∃ base, files.follow location (List.replicate count parent) = .ok base ∧
      ∃ entries, files.root.find? base = some (.directory entries) := by
  induction count generalizing location with
  | zero => exact ⟨location, rfl, directory⟩
  | succ count ih =>
    obtain ⟨entries, here⟩ := directory
    have above : ∃ entries, files.root.find? location.dropLast = some (.directory entries) := by
      by_cases top : location = []
      · subst top
        exact ⟨entries, here⟩
      · exact Entry.find?_dropLast top here
    rw [List.replicate_succ, follow_cons here]
    exact ih above

theorem exists_directory_of_follow {location final : List Text} {part : Text} {rest : List Text}
    (followed : files.follow location (part :: rest) = .ok final) :
    ∃ entries, files.root.find? location = some (.directory entries) := by
  rw [follow] at followed
  split at followed
  · cases followed
  · cases followed
  · next entries here => exact ⟨entries, here⟩

theorem start_clean (path : Text) : files.start (clean path) = files.start path := by
  rw [start, start, isRooted_clean]

theorem follow_still {location still : List Text}
    (directory : ∃ entries, files.root.find? location = some (.directory entries))
    (stays : ∀ part ∈ still, (part.isEmpty || part == ".") = true) (rest : List Text) :
    files.follow location (still ++ rest) = files.follow location rest := by
  induction still with
  | nil => rfl
  | cons part still ih =>
    obtain ⟨entries, here⟩ := directory
    rw [List.cons_append, follow_cons here, if_pos (stays part (by simp))]
    exact ih fun other member => stays other (by simp [member])

/-- A cleaned path that starts in a directory. -/
theorem leads_clean (directory : ∃ entries, files.root.find? (files.start path) =
    some (.directory entries))
    (proper : (0 : UInt8) ∉ clean path) (short : ∀ part ∈ parts (clean path), part.length ≤ 255) :
    ∃ base names, files.Leads (clean path) base names := by
  obtain ⟨still, parted, stays⟩ := parts_clean path
  obtain ⟨count, names, split, free, each⟩ := (tidy_cleanParts path).split
  rw [List.reverse_reverse] at split
  obtain ⟨base, followed, below⟩ := follow_ups count directory
  rw [split, ← List.append_assoc] at parted
  refine ⟨base, names, clean_ne_nil path, proper, ⟨_, parted, ?_⟩, below, ?_⟩
  · rw [start_clean, follow_still directory stays, followed]
  · intro name member
    exact ⟨each name member, short name (by rw [parted]; simp [member])⟩

theorem follow_concat {location between : List Text} {before : List Text}
    (followed : files.follow location before = .ok between) (part : Text) :
    files.follow location (before ++ [part]) = files.follow between [part] := by
  rw [follow_append, followed]
  rfl

/-- Cleaning keeps where the parts of a path lead: what has been collected leads to the place that
the parts so far have led to. -/
theorem follow_foldl_cleanStep {rooted : Bool} {start : List Text}
    (top : rooted = true → start = [])
    {done parts location final : List Text} (tidy : Tidy rooted done)
    (whole : ∀ part ∈ parts, Ascii.slash ∉ part)
    (collected : files.follow start done.reverse = .ok location)
    (followed : files.follow location parts = .ok final) :
    files.follow start (parts.foldl (cleanStep rooted) done).reverse = .ok final := by
  induction parts generalizing done location with
  | nil =>
    cases followed
    exact collected
  | cons part parts ih =>
    have further : ∀ other ∈ parts, Ascii.slash ∉ other :=
      fun other member => whole other (by simp [member])
    have next := cleanStep_tidy tidy (whole part (by simp))
    obtain ⟨entries, here⟩ := exists_directory_of_follow followed
    have last (location : List Text)
        (here : files.root.find? location = some (.directory entries)) :
        files.follow location [parent] = .ok location.dropLast := follow_cons here parent []
    rw [List.foldl_cons]
    rw [follow_cons here] at followed
    by_cases skipped : (part.isEmpty || part == ".") = true
    · rw [if_pos skipped] at followed
      have same : cleanStep rooted done part = done := by rw [cleanStep.eq_def, if_pos skipped]
      rw [same]
      exact ih tidy further collected followed
    rw [if_neg skipped] at followed
    by_cases up : (part == "..") = true
    · rw [if_pos up] at followed
      obtain rfl : part = parent := beq_iff_eq.1 up
      apply ih next further _ followed
      rw [cleanStep_up]
      cases tidy with
      | name proper tidy =>
        rename_i name before
        rw [List.reverse_cons] at collected
        dsimp only
        rw [if_neg (by simpa using proper.not_up)]
        cases way : files.follow start before.reverse with
        | error => simp [follow_append, way, Except.bind] at collected
        | ok between =>
          rw [follow_concat way] at collected
          have place := spelled_of_follow collected
          rw [List.foldl_cons, List.foldl_nil, spelledStep_name proper] at place
          rw [place, List.dropLast_concat]
      | ups count free =>
        cases count with
        | zero =>
          cases collected
          cases rooted with
          | true =>
            rw [top rfl]
            rfl
          | false => exact last start here
        | succ count =>
          have again : (parent :: List.replicate (count + 1) parent).reverse =
              (List.replicate (count + 1) parent).reverse ++ [parent] := List.reverse_cons
          change files.follow start (parent :: List.replicate (count + 1) parent).reverse = _
          rw [again, follow_concat collected, last location here]
    · rw [if_neg up] at followed
      have proper : IsName part := by
        simp only [Bool.or_eq_true, List.isEmpty_iff, beq_iff_eq, not_or] at skipped
        exact ⟨skipped.1, skipped.2, fun same => up (beq_iff_eq.2 same), whole part (by simp)⟩
      split at followed
      · cases followed
      next short =>
      split at followed
      · next there =>
        apply ih next further _ followed
        rw [cleanStep_name rooted done proper, List.reverse_cons, follow_concat collected,
          follow_cons here, if_neg skipped, if_neg up, if_neg short, if_pos there]
        rfl
      · cases followed

/-- A path whose way leads to an entry. -/
theorem stat_of_follow {location : List Text} {entry : Entry} (started : path ≠ [])
    (proper : (0 : UInt8) ∉ path)
    (followed : files.follow (files.start path) (parts path) = .ok location)
    (found : files.root.find? location = some entry) : files.stat path = .ok entry := by
  simp only [stat, locate_eq_follow started proper, followed, found]

theorem proper_of_stat {entry : Entry} (seen : files.stat path = .ok entry) :
    (0 : UInt8) ∉ path := by
  intro zero
  obtain ⟨started, -⟩ := of_stat seen
  have bad : path.any (· == 0) = true := List.any_eq_true.2 ⟨0, zero, rfl⟩
  simp [stat, locate, started, bad] at seen

/-- What is at the end of a path is at the end of the cleaned path. -/
theorem stat_clean {entry : Entry} (seen : files.stat path = .ok entry) :
    files.stat (clean path) = .ok entry := by
  have proper := proper_of_stat seen
  obtain ⟨started, location, followed, found⟩ := of_stat seen
  apply stat_of_follow (clean_ne_nil path) (zero_not_mem_clean proper) _ found
  obtain ⟨still, parted, stays⟩ := parts_clean path
  have directory : ∃ entries, files.root.find? (files.start path) = some (.directory entries) := by
    cases split : parts path with
    | nil => exact absurd (parts_eq path ▸ split) (List.splitOn_ne_nil _ _)
    | cons part rest =>
      rw [split] at followed
      exact exists_directory_of_follow followed
  rw [start_clean, parted, follow_still directory stays, cleanParts]
  have top : isRooted path = true → files.start path = [] :=
    fun rooted => by rw [start, if_pos rooted]
  exact follow_foldl_cleanStep top (.ups 0 fun _ => rfl) (fun part => no_slash_of_mem_parts)
    rfl followed

/-- What is in a directory is at the end of its path. -/
theorem stat_join {entries : List (Text × Entry)} {name : Text} {entry : Entry}
    (seen : files.stat path = .ok (.directory entries)) (isName : IsName name)
    (proper : (0 : UInt8) ∉ name) (short : name.length ≤ 255)
    (inside : entries.lookup name = some entry) : files.stat (join [path, name]) = .ok entry := by
  have clear := proper_of_stat seen
  obtain ⟨started, location, followed, found⟩ := of_stat seen
  rw [join_pair started]
  apply stat_clean
  have there : files.root.find? (location ++ [name]) = some entry := by
    rw [Entry.find?_append, found, Option.bind_some, Entry.find?_cons, inside]
    rfl
  apply stat_of_follow (by simp) _ _ there
  · simp only [List.mem_append, List.mem_cons, not_or]
    exact ⟨clear, by decide, proper⟩
  · have start : files.start (path ++ Ascii.slash :: name) = files.start path := by
      rw [Files.start, Files.start, isRooted_append started]
    rw [start, parts_append, parts_single isName.no_slash, follow_concat followed,
      follow_cons found, there]
    have up : name ≠ ".." := isName.not_up
    simp [isName.nonempty, isName.not_here, up, short, follow]

/-- A file beside one that can be seen. -/
theorem leads_beside {source : Batch.Source} {found : Option Text}
    (seen : files.look source.path = .ok found) (proper : (0 : UInt8) ∉ source.beside)
    (short : ∀ part ∈ parts source.beside, part.length ≤ 255) :
    ∃ base names, files.Leads source.beside base names := by
  obtain ⟨started, followed, -⟩ := of_look seen
  obtain ⟨front, name, split, isFolder, whole⟩ := exists_folder source.path
  obtain ⟨before, parted⟩ := parts_folder isFolder
  have stem : Ascii.slash ∉ withoutExtension name := by
    intro inside
    rw [← withoutExtension_append_extension name] at whole
    exact whole (List.mem_append_left _ inside)
  have output := isName_output stem
  have spelled : source.beside = front ++ (withoutExtension name ++ ".js") := by
    rw [Batch.Source.beside, split, withoutExtension_append isFolder whole, List.append_assoc]
  have last := parted _ output.no_slash
  rw [split, parted name whole, follow_append, Files.start,
    isRooted_folder isFolder whole] at followed
  cases way : files.follow (if isRooted front then [] else files.here) before with
  | error e => simp [way, Except.bind] at followed
  | ok base =>
    refine ⟨base, [withoutExtension name ++ ".js"], ?_, proper, ⟨before, ?_, ?_⟩, ?_, ?_⟩
    · rw [spelled]
      simp [output.nonempty]
    · rw [spelled, last]
    · rw [spelled, Files.start, isRooted_folder isFolder output.no_slash, way]
    · rw [way] at followed
      exact exists_directory_of_follow followed
    · intro other member
      rw [List.mem_singleton.1 member]
      exact ⟨output, short _ (by rw [spelled, last]; simp)⟩

end Files

namespace Batch

/-- An output that is missing and can be written. -/
theorem leads_outputPath {o : Options} {files : Files} {source : Source} {found : Option Text}
    (seen : files.look source.path = .ok found)
    (writable : files.canWrite (o.outputPath source) = true)
    (missing : files.look (o.outputPath source) = .error .missing) :
    ∃ base names, files.Leads (o.outputPath source) base names := by
  simp only [Files.canWrite, Bool.and_eq_true, List.all_eq_true, decide_eq_true_eq] at writable
  obtain ⟨⟨started, short⟩, -⟩ := writable
  by_cases inPlace : o.inPlace = true
  · rw [Options.outputPath, if_pos inPlace, seen] at missing
    cases missing
  have apart : o.inPlace = false := Bool.eq_false_iff.2 inPlace
  by_cases none : o.outDir = []
  · rw [outputPath_beside apart none] at short missing ⊢
    have nonempty : source.beside ≠ [] := by
      rw [Source.beside]
      exact List.append_ne_nil_of_right_ne_nil _ (List.cons_ne_nil _ _)
    exact Files.leads_beside seen (Files.proper_of_missing missing nonempty) short
  · obtain ⟨path, cleaned⟩ : ∃ path, o.outputPath source = clean path := by
      simp only [Options.outputPath, apart, Bool.false_eq_true, if_false, List.isEmpty_iff, none]
      exact ⟨_, join_pair none _⟩
    rw [cleaned] at short missing started ⊢
    rw [Files.start, isRooted_clean, ← Files.start] at started
    have directory : ∃ entries, files.root.find? (files.start path) =
        some (.directory entries) := by
      cases here : files.root.find? (files.start path) with
      | none => simp [here] at started
      | some entry =>
        cases entry with
        | file => simp [here, Entry.isDirectory] at started
        | directory entries => exact ⟨entries, rfl⟩
    exact Files.leads_clean directory (Files.proper_of_missing missing (clean_ne_nil path)) short

end Batch

/-! Sources that can be seen. -/

/-- Whether the names in each directory are different, and such that a path can hold them. -/
def Entry.Proper : Entry → Prop := Everywhere fun names =>
  (∀ name ∈ names, IsName name ∧ (0 : UInt8) ∉ name ∧ name.length ≤ 255) ∧ names.Nodup

theorem Entry.lookup_of_mem {entries : List (Text × Entry)} (nodup : (entries.map Prod.fst).Nodup)
    {name : Text} {entry : Entry} (member : (name, entry) ∈ entries) :
    entries.lookup name = some entry := by
  obtain ⟨before, after, rfl⟩ := List.append_of_mem member
  rw [List.map_append, List.nodup_append] at nodup
  refine List.lookup_eq_some_iff.2 ⟨before, after, rfl, fun e among => ?_⟩
  exact bne_iff_ne.2 (nodup.2.2 e.1 (List.mem_map_of_mem among) name (by simp)).symm

theorem Entry.Proper.of_mem {entries : List (Text × Entry)} (proper : (directory entries).Proper)
    {name : Text} {entry : Entry} (member : (name, entry) ∈ entries) :
    (IsName name ∧ (0 : UInt8) ∉ name ∧ name.length ≤ 255) ∧ entries.lookup name = some entry ∧
      entry.Proper := by
  obtain ⟨⟨names, nodup⟩, inside⟩ := everywhere_directory.1 proper
  exact ⟨names name (List.mem_map_of_mem member), lookup_of_mem nodup member, inside _ member⟩

namespace Batch

variable {o : Options} {files : Files}

mutual

theorem seen_of_walkEntry {path name found : Text} {entry : Entry} (proper : entry.Proper)
    (seen : files.stat path = .ok entry) (member : found ∈ walkEntry o path name entry) :
    ∃ content executable, files.stat found = .ok (.file content executable) := by
  cases entry with
  | file content executable =>
    rw [walkEntry] at member
    split at member
    · rw [List.mem_singleton.1 member]
      exact ⟨content, executable, seen⟩
    · cases member
  | directory entries =>
    rw [walkEntry] at member
    split at member
    · cases member
    · exact seen_of_walk proper seen (fun _ => id) member

theorem seen_of_walk {path found : Text} {entries some : List (Text × Entry)}
    (proper : (Entry.directory entries).Proper) (seen : files.stat path = .ok (.directory entries))
    (within : some ⊆ entries) (member : found ∈ walk o path some) :
    ∃ content executable, files.stat found = .ok (.file content executable) := by
  cases some with
  | nil => cases member
  | cons first rest =>
    obtain ⟨name, entry⟩ := first
    rw [walk] at member
    rcases List.mem_append.1 member with here | later
    · obtain ⟨⟨isName, clear, short⟩, inside, inner⟩ := proper.of_mem (within List.mem_cons_self)
      exact seen_of_walkEntry inner (Files.stat_join seen isName clear short inside) here
    · exact seen_of_walk proper seen (fun _ inside => within (List.mem_cons_of_mem _ inside)) later

end

/-- All that an expansion finds are files that can be seen. -/
theorem seen_of_mem_expand (proper : files.root.Proper) {paths : List Text} {s : Source}
    (member : s ∈ (expand o files paths).sources) :
    ∃ content executable, files.stat s.path = .ok (.file content executable) := by
  obtain ⟨path, -, member⟩ := exists_added member
  rw [added] at member
  split at member
  · cases member
  · next content executable seen =>
    rw [List.mem_singleton.1 member]
    exact ⟨content, executable, seen⟩
  · next entries seen =>
    obtain ⟨found, inside, rfl⟩ := List.mem_map.1 member
    obtain ⟨-, location, -, there⟩ := Files.of_stat seen
    exact seen_of_walk (proper.find? there) seen (fun _ => id) inside

end Batch

end ShellToDeno
