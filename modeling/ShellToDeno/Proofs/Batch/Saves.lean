import ShellToDeno.Proofs.Batch.Ways

/-!
# Files that are saved

Saving a file makes the directories on its way one after the other (`Made`) and then opens the file.
The way of the folder is that of the file, cleaned, without its last name (`exists_way_dir`). A file
that is there can be saved, and so can one that is missing where nothing is in the way
(`saves_of_file`, `saves_of_leads`).
-/
namespace ShellToDeno

open ShellToDeno.Path

namespace Files
variable {files made wide : Files} {path : Text} {base names place : List Text}

/-- A file is written where it is saved. -/
def Saves (files : Files) (w : Write) : Prop :=
  files.save w.path w.content w.executable = (files.apply w, none)

/-! Directories. -/

/-- Files that hold what others hold, and a directory with what is in it there. -/
structure Made (files made : Files) (place : List Text) : Prop where
  here : made.here = files.here
  directory : ∃ entries, made.root.find? place = some (.directory entries)
  keeps : ∀ {location entry}, files.root.find? location = some entry →
    ∃ kept, made.root.find? location = some kept ∧ kept.isDirectory = entry.isDirectory
  below : ∀ {rest}, rest ≠ [] →
    made.root.find? (place ++ rest) = files.root.find? (place ++ rest)
  put : ∀ {rest} new, rest ≠ [] →
    made.root.put (place ++ rest) new = files.root.put (place ++ rest) new

theorem Made.refl (directory : ∃ entries, files.root.find? place = some (.directory entries)) :
    Made files files place :=
  ⟨rfl, directory, fun found => ⟨_, found, rfl⟩, fun _ => rfl, fun _ _ => rfl⟩

theorem Made.trans {rest : List Text} (first : Made files made place)
    (second : Made made wide (place ++ rest)) : Made files wide (place ++ rest) := by
  refine ⟨second.here.trans first.here, second.directory, fun found => ?_, fun {more} further => ?_,
    fun {more} new further => ?_⟩
  · obtain ⟨kept, there, same⟩ := first.keeps found
    obtain ⟨last, here, alike⟩ := second.keeps there
    exact ⟨last, here, alike.trans same⟩
  · have below : rest ++ more ≠ [] := by simp [further]
    rw [second.below further, List.append_assoc, first.below below]
  · have below : rest ++ more ≠ [] := by simp [further]
    rw [second.put new further, List.append_assoc, first.put new below]

/-- A directory that is made in another one. -/
theorem made_put {name : Text}
    (directory : ∃ entries, files.root.find? base = some (.directory entries))
    (missing : files.root.find? (base ++ [name]) = none) :
    Made files { files with root := files.root.put (base ++ [name]) (.directory []) }
      (base ++ [name]) := by
  have above {location : List Text} (within : location <+: base ++ [name])
      (differ : location ≠ base ++ [name]) :
      ∃ entries, files.root.find? location = some (.directory entries) :=
    exists_directory_of_prefix ((List.prefix_concat_iff.1 within).resolve_left differ) directory
  have free : Entry.isFree (base ++ [name]) (some files.root) = true := by
    apply Entry.isFree_iff.2
    refine ⟨fun location within differ content executable found => ?_, fun entries found => ?_⟩
    · obtain ⟨entries, directory⟩ := above within differ
      rw [directory] at found
      cases found
    · rw [missing] at found
      cases found
  refine ⟨rfl, ⟨[], Entry.find?_put_self free⟩, fun {location entry} found => ?_,
    fun {rest} further => ?_, fun _ _ => Entry.put_put_below missing⟩
  · by_cases within : location <+: base ++ [name]
    · have differ : location ≠ base ++ [name] := by
        rintro rfl
        rw [missing] at found
        cases found
      obtain ⟨entries, directory⟩ := above within differ
      obtain ⟨inside, made⟩ : ∃ inside, Entry.find? location
          (files.root.put (base ++ [name]) (.directory [])) = some (.directory inside) :=
        Entry.find?_put_above free within differ
      rw [directory] at found
      cases found
      exact ⟨_, made, rfl⟩
    · exact ⟨entry, (Entry.find?_put_beside Entry.find?_below_empty free within).trans found, rfl⟩
  · have after : Entry.find? (base ++ [name]) (files.root.put (base ++ [name]) (.directory [])) =
        some (.directory []) := Entry.find?_put_self free
    have before : files.root.find? (base ++ [name] ++ rest) = none := by
      rw [Entry.find?_append (base ++ [name]), missing]
      rfl
    rw [before, Entry.find?_append (base ++ [name])]
    exact (congrArg (Option.bind · (Entry.find? rest)) after).trans
      (Entry.find?_below_empty further)

/-- A way that leads to a directory stays so. -/
theorem follow_of_keeps
    (keeps : ∀ {location entry}, files.root.find? location = some entry →
      ∃ kept, made.root.find? location = some kept ∧ kept.isDirectory = entry.isDirectory)
    {location parts final : List Text} (followed : files.follow location parts = .ok final) :
    made.follow location parts = .ok final := by
  induction parts generalizing location with
  | nil => exact followed
  | cons part parts ih =>
    obtain ⟨entries, here⟩ := exists_directory_of_follow followed
    obtain ⟨kept, there, alike⟩ := keeps here
    cases kept with
    | file => cases alike
    | directory inside =>
      rw [follow_cons here] at followed
      rw [follow_cons there]
      by_cases skipped : (part.isEmpty || part == ".") = true
      · rw [if_pos skipped] at followed ⊢
        exact ih followed
      rw [if_neg skipped] at followed ⊢
      by_cases up : (part == "..") = true
      · rw [if_pos up] at followed ⊢
        exact ih followed
      rw [if_neg up] at followed ⊢
      by_cases long : part.length > 255
      · rw [if_pos long] at followed
        cases followed
      rw [if_neg long] at followed ⊢
      split at followed
      · next found =>
        obtain ⟨entry, found⟩ := Option.isSome_iff_exists.1 found
        obtain ⟨other, found, -⟩ := keeps found
        rw [found]
        exact ih followed
      · cases followed

/-- Along a way that leads to a directory there is nothing to make. -/
theorem makeAlong_follow {location first final : List Text}
    (followed : files.follow location first = .ok final)
    (directory : ∃ entries, files.root.find? final = some (.directory entries))
    (before rest : List Text) :
    makeAlong location before (first ++ rest) files =
      makeAlong final (before ++ first) rest files := by
  induction first generalizing location before with
  | nil =>
    cases followed
    rw [List.nil_append, List.append_nil]
  | cons part first ih =>
    obtain ⟨entries, here⟩ := exists_directory_of_follow followed
    have further : before ++ part :: first = before ++ [part] ++ first := by simp
    rw [follow_cons here] at followed
    rw [List.cons_append, makeAlong, further]
    by_cases skipped : (part.isEmpty || part == ".") = true
    · rw [if_pos skipped] at followed ⊢
      exact ih followed _
    rw [if_neg skipped] at followed ⊢
    by_cases up : (part == "..") = true
    · rw [if_pos up] at followed ⊢
      exact ih followed _
    rw [if_neg up] at followed ⊢
    split at followed
    · cases followed
    split at followed
    · next found =>
      obtain ⟨entry, found⟩ := Option.isSome_iff_exists.1 found
      rw [found]
      cases entry with
      | directory => exact ih followed _
      | file content executable =>
        cases first with
        | nil =>
          cases followed
          obtain ⟨entries, directory⟩ := directory
          rw [found] at directory
          cases directory
        | cons next first =>
          obtain ⟨entries, directory⟩ := exists_directory_of_follow followed
          rw [found] at directory
          cases directory
    · cases followed

/-- No file comes in the way when a directory is made. -/
theorem Made.clear {name : Text} {location : List Text} (first : Made files made (base ++ [name]))
    (missing : files.root.find? (base ++ [name]) = none)
    (within : location <+: base ++ [name] ++ names) (content : Text) (executable : Bool) :
    made.root.find? location ≠ some (.file content executable) := by
  intro there
  rcases List.prefix_or_prefix_of_prefix within (List.prefix_append (base ++ [name]) names) with
    above | ⟨rest, rfl⟩
  · obtain ⟨entries, here⟩ := exists_directory_of_prefix above first.directory
    rw [here] at there
    cases there
  · by_cases last : rest = []
    · obtain ⟨entries, here⟩ := first.directory
      rw [last, List.append_nil, here] at there
      cases there
    · rw [first.below last, Entry.find?_append, missing] at there
      cases there

/-- Directories are made below one that is there, as long as no file is in the way. -/
theorem exists_makeAlong (directory : ∃ entries, files.root.find? base = some (.directory entries))
    (proper : ∀ name ∈ names, IsName name ∧ name.length ≤ 255)
    (clear : ∀ {location}, location <+: base ++ names →
      ∀ content executable, files.root.find? location ≠ some (.file content executable))
    (before : List Text) :
    ∃ made, makeAlong base before names files = (made, none) ∧ Made files made (base ++ names) := by
  induction names generalizing base before files with
  | nil => exact ⟨files, rfl, by rw [List.append_nil]; exact .refl directory⟩
  | cons name names ih =>
    rw [List.forall_mem_cons] at proper
    obtain ⟨⟨isName, short⟩, others⟩ := proper
    have up : name ≠ ".." := isName.not_up
    have split : base ++ name :: names = base ++ [name] ++ names := by simp
    rw [split] at clear ⊢
    rw [makeAlong]
    rw [if_neg (by simp [isName.nonempty, isName.not_here]), if_neg (by simp [up])]
    cases found : files.root.find? (base ++ [name]) with
    | some entry =>
      cases entry with
      | file content executable =>
        exact absurd found (clear (List.prefix_append _ _) content executable)
      | directory entries => exact ih ⟨entries, found⟩ others clear _
    | none =>
      have first := made_put directory found
      dsimp only
      rw [if_neg (by omega)]
      obtain ⟨made, along, second⟩ :=
        ih first.directory others (first.clear found) (before ++ [name])
      exact ⟨made, along, first.trans second⟩

/-! The folder of a path. -/

/-- The parts that cleaning collects of a folder are those of the path without the last one. -/
theorem cleanParts_front {front name : Text} (isFolder : IsFolder front)
    (whole : Ascii.slash ∉ name)
    {before : List Text} (parted : parts (front ++ name) = before ++ [name]) :
    cleanParts front = (before.foldl (cleanStep (isRooted front)) []).reverse := by
  rw [cleanParts]
  cases isFolder with
  | none =>
    rw [List.nil_append, parts_single whole] at parted
    obtain rfl : before = [] := by simpa using parted
    rfl
  | some path =>
    have after : parts (path ++ [Ascii.slash] ++ name) = parts path ++ [name] := by
      rw [List.append_assoc, List.singleton_append, parts_append, parts_single whole]
    have inside : parts (path ++ [Ascii.slash]) = parts path ++ [[]] := parts_append path []
    rw [after] at parted
    rw [inside, List.append_cancel_right parted, List.foldl_append]
    rfl

/-- The folder of a path leads where the path leads before its last names. -/
theorem exists_way_dir {before : List Text} (split : parts path = before ++ names)
    (further : names ≠ [])
    (proper : ∀ name ∈ names.dropLast, IsName name)
    (followed : files.follow (files.start path) before = .ok base)
    (directory : ∃ entries, files.root.find? base = some (.directory entries)) :
    ∃ front, parts (dir path) = front ++ names.dropLast ∧
      files.follow (files.start (dir path)) front = .ok base := by
  obtain ⟨front, name, rfl, isFolder, whole⟩ := exists_folder path
  have parted : parts (front ++ name) = (before ++ names.dropLast) ++ [name] := by
    have last := getLast?_parts (front ++ name)
    rw [file_append isFolder whole, split, List.getLast?_append_of_ne_nil _ further] at last
    rw [split, List.append_assoc, List.dropLast_append_getLast? name last]
  have start : files.start (dir (front ++ name)) = files.start (front ++ name) := by
    rw [dir, folder_append isFolder whole, start_clean, Files.start, Files.start,
      isRooted_folder isFolder whole]
  have begun : ∃ entries, files.root.find? (files.start (front ++ name)) =
      some (.directory entries) := by
    cases before with
    | nil =>
      cases followed
      exact directory
    | cons part before => exact exists_directory_of_follow followed
  have top : isRooted front = true → files.start (front ++ name) = [] := fun rooted => by
    rw [Files.start, isRooted_folder isFolder whole, if_pos rooted]
  obtain ⟨still, cleaned, stays⟩ := parts_clean front
  rw [cleanParts_front isFolder whole parted, List.foldl_append, foldl_names _ _ proper,
    List.reverse_append, List.reverse_reverse, ← List.append_assoc] at cleaned
  refine ⟨_, by rw [dir, folder_append isFolder whole]; exact cleaned, ?_⟩
  rw [start, follow_still begun stays]
  refine follow_foldl_cleanStep top (.ups 0 fun _ => rfl) (fun part member => ?_) rfl followed
  have inside : part ∈ parts (front ++ name) := by simp [split, member]
  exact no_slash_of_mem_parts inside

/-! Files. -/

/-- A file that is there can be written anew. -/
theorem saves_of_file {w : Write} {content : Text} (seen : files.look w.path = .ok (some content)) :
    files.Saves w := by
  rw [look] at seen
  cases stat : files.stat w.path with
  | error e => simp [stat, Except.map] at seen
  | ok entry =>
    rw [stat] at seen
    cases entry with
    | directory => cases seen
    | file content executable =>
      obtain ⟨-, location, followed, found⟩ := of_stat stat
      obtain ⟨before, split⟩ := List.getLast?_eq_some_iff.1 (getLast?_parts w.path)
      rw [split, follow_append] at followed
      cases way : files.follow (files.start w.path) before with
      | error e => simp [way, Except.bind] at followed
      | ok base =>
        rw [way] at followed
        have directory := exists_directory_of_follow followed
        obtain ⟨front, parted, leads⟩ := exists_way_dir split (List.cons_ne_nil _ _)
          (List.forall_mem_nil _) way directory
        have made := makeAlong_follow leads directory [] []
        rw [List.append_nil] at made
        have openable : files.openError? w.path = none := by rw [openError?, stat]
        rw [Saves, save, parted, List.dropLast_singleton, List.append_nil, made]
        simp only [makeAlong, openable]
        rfl

/-- The way to a file whose directory has been made. -/
theorem Leads.of_made {above : List Text} {last : Text}
    (leads : files.Leads path base (above ++ [last])) (done : Made files made (base ++ above)) :
    made.Leads path (base ++ above) [last] := by
  obtain ⟨before, split, way⟩ := leads.way
  have proper : ∀ name ∈ above, IsName name ∧ name.length ≤ 255 := fun name member =>
    leads.names name (List.mem_append_left _ member)
  obtain ⟨entries, here⟩ := done.directory
  have reached : made.follow (made.start path) (before ++ above) = .ok (base ++ above) := by
    have start := exists_directory_of_prefix (List.prefix_append base above) done.directory
    rw [start_of_here done.here, follow_append, follow_of_keeps done.keeps way]
    change made.follow base above = _
    rw [follow_names start proper, here]
    rfl
  exact ⟨leads.started, leads.proper, ⟨before ++ above, by rw [split, List.append_assoc], reached⟩,
    done.directory, fun name member => leads.names name (List.mem_append_right _ member)⟩

/-- A file that is missing can be opened in a directory that is there. -/
theorem Leads.openable {last : Text} (leads : files.Leads path base [last])
    (missing : files.root.find? (base ++ [last]) = none) : files.openError? path = none := by
  obtain ⟨before, split, way⟩ := leads.way
  obtain ⟨entries, here⟩ := leads.directory
  obtain ⟨isName, short⟩ := leads.names last (List.mem_singleton_self last)
  have up : last ≠ ".." := isName.not_up
  have stopped : files.follow (files.start path) (parts path) = .error .missing := by
    rw [split, follow_concat way, follow_cons here, missing]
    simp [isName.nonempty, isName.not_here, up, short]
  have gone : files.stat path = .error .missing := by
    rw [stat, locate_eq_follow leads.started leads.proper, stopped]
  have still : files.follow (files.start path) (before ++ [("." : Text)]) = .ok base :=
    (follow_concat way _).trans (follow_cons here _ [])
  rw [openError?, gone, split, List.dropLast_concat, List.concat_eq_append]
  dsimp only
  rw [if_neg (by simpa using leads.started), still]

/-- A file that is missing can be written where nothing is in the way. -/
theorem saves_of_leads {w : Write} (leads : files.Leads w.path base names)
    (missing : files.root.find? (files.spelled w.path) = none)
    (free : Entry.isFree (files.spelled w.path) (some files.root) = true) : files.Saves w := by
  obtain ⟨before, split, way⟩ := leads.way
  have place := leads.place
  rw [place] at missing free
  have further : names ≠ [] := by
    rintro rfl
    obtain ⟨entries, here⟩ := leads.directory
    rw [List.append_nil, here] at missing
    cases missing
  obtain ⟨above, last, rfl⟩ : ∃ above last, names = above ++ [last] :=
    ⟨_, _, (List.dropLast_append_getLast further).symm⟩
  have proper : ∀ name ∈ above, IsName name ∧ name.length ≤ 255 := fun name member =>
    leads.names name (List.mem_append_left _ member)
  have clear {location : List Text} (within : location <+: base ++ above) (content : Text)
      (executable : Bool) : files.root.find? location ≠ some (.file content executable) := by
    obtain ⟨rest, whole⟩ := within
    refine (Entry.isFree_iff.1 free).1 location ⟨rest ++ [last], ?_⟩ ?_ content executable
    · rw [← List.append_assoc, whole, List.append_assoc]
    · rintro rfl
      simpa using congrArg List.length whole
  obtain ⟨front, parted, start⟩ := exists_way_dir split further
    (by simpa using fun name member => (proper name member).1) way leads.directory
  rw [List.dropLast_concat] at parted
  obtain ⟨made, along, done⟩ := exists_makeAlong leads.directory proper clear front
  have made_along : makeAlong (files.start (dir w.path)) [] (parts (dir w.path)) files =
      (made, none) := by
    rw [parted, makeAlong_follow start leads.directory, List.nil_append, along]
  have openable : made.openError? w.path = none := by
    apply (leads.of_made done).openable
    rw [done.below (List.cons_ne_nil _ _), List.append_assoc, missing]
  have put : made.write w.path w.content w.executable = files.apply w := by
    rw [apply, write, write, spelled_of_here done.here, place, ← List.append_assoc,
      done.put _ (List.cons_ne_nil _ _), ← done.here]
  rw [Saves, save, made_along]
  simp only [openable, put]

/-- The way to a file that is missing and can be opened. -/
theorem leads_of_openable (missing : files.stat path = .error .missing)
    (openable : files.openError? path = none) : ∃ base last, files.Leads path base [last] := by
  rw [openError?, missing] at openable
  have started : path ≠ [] := by
    rintro rfl
    cases openable
  have unseen : files.look path = .error .missing := by
    rw [look, missing]
    rfl
  obtain ⟨before, split⟩ := List.getLast?_eq_some_iff.1 (getLast?_parts path)
  rw [split, List.dropLast_concat, List.concat_eq_append] at openable
  cases way : files.follow (files.start path) before with
  | error e => simp [started, follow_append, way, Except.bind] at openable
  | ok base =>
    have proper := proper_of_missing unseen started
    have whole : Ascii.slash ∉ file path := no_slash_of_mem_parts (by rw [split]; simp)
    cases here : files.root.find? base with
    | none =>
      have stopped : files.follow base ["."] = .error .missing := by rw [follow, here]
      simp [started, follow_append, way, Except.bind, stopped] at openable
    | some entry =>
      cases entry with
      | file content executable =>
        have stopped : files.follow base ["."] = .error .notDirectory := by rw [follow, here]
        simp [started, follow_append, way, Except.bind, stopped] at openable
      | directory entries =>
        rw [look_eq_of_follow started proper, split, follow_concat way, follow_cons here] at unseen
        have above : ∃ entry, files.root.find? base.dropLast = some entry := by
          by_cases top : base = []
          · subst top
            exact ⟨_, here⟩
          · obtain ⟨entries, above⟩ := Entry.find?_dropLast top here
            exact ⟨_, above⟩
        obtain ⟨outer, above⟩ := above
        by_cases skipped : ((file path).isEmpty || file path == ".") = true
        · simp [skipped, follow, Except.bind, here] at unseen
        by_cases up : (file path == "..") = true
        · simp [skipped, up, follow, Except.bind, above] at unseen
        by_cases long : (file path).length > 255
        · simp [skipped, up, long, Except.bind] at unseen
        refine ⟨base, file path, started, proper, ⟨before, split, way⟩, ⟨entries, here⟩, ?_⟩
        intro name member
        obtain rfl := List.mem_singleton.1 member
        simp only [Bool.or_eq_true, List.isEmpty_iff, beq_iff_eq, not_or] at skipped
        exact ⟨⟨skipped.1, skipped.2, fun same => up (beq_iff_eq.2 same), whole⟩, by omega⟩

/-- A file can be put in the place of one that is there. -/
theorem isFree_of_file {content : Text} {executable : Bool}
    (found : files.root.find? place = some (.file content executable)) :
    Entry.isFree place (some files.root) = true := by
  apply Entry.isFree_iff.2
  refine ⟨fun location within differ content executable there => ?_, fun entries there => ?_⟩
  · obtain ⟨rest, rfl⟩ := within
    have further : rest ≠ [] := fun last => differ (by rw [last, List.append_nil])
    obtain ⟨entries, directory⟩ := exists_directory_above further (Option.isSome_of_eq_some found)
    rw [directory] at there
    cases there
  · rw [there] at found
    cases found

/-- A file that has been saved can be seen. -/
theorem look_of_save {content : Text} {executable : Bool}
    (saved : files.save path content executable = (made, none)) :
    made.look path = .ok (some content) := by
  rw [save] at saved
  split at saved
  · cases saved
  next between _ =>
  split at saved
  · cases saved
  next openable =>
  cases saved
  have grown (free : Entry.isFree (between.spelled path) (some between.root) = true) :
      Grown between (between.apply ⟨path, content, executable⟩) [⟨path, content, executable⟩] :=
    (Grown.refl between).write (by simp) free
  cases stat : between.stat path with
  | ok entry =>
    cases entry with
    | directory entries => simp [openError?, stat] at openable
    | file old mode =>
      have seen : between.look path = .ok (some old) := by
        rw [look, stat]
        rfl
      obtain ⟨-, -, entry, found, file⟩ := of_look seen
      cases entry with
      | directory entries => cases file
      | file old mode => exact (grown (isFree_of_file found)).look_anew List.mem_cons_self seen
  | error e =>
    cases e with
    | missing =>
      obtain ⟨base, last, leads⟩ := leads_of_openable stat openable
      have unseen : between.look path = .error .missing := by
        rw [look, stat]
        rfl
      rw [leads.look] at unseen
      have free : Entry.isFree (between.spelled path) (some between.root) = true := by
        split at unseen
        · cases unseen
        · by_contra blocked
          rw [if_neg blocked] at unseen
          cases unseen
      exact leads.look_anew (grown free) List.mem_cons_self rfl
    | _ => simp [openError?, stat] at openable

end Files

end ShellToDeno
