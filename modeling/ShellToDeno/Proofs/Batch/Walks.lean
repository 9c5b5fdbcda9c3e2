import ShellToDeno.Proofs.Batch.Outputs

/-!
# Walks

A walk from a directory picks up the files below it that are wanted, in the order of their
locations. Hence what an expansion finds is known from the arguments, each argument by itself, and
in a directory for all outputs the outputs lie as the files do below their arguments.
-/
namespace ShellToDeno

open ShellToDeno.Path

/-- A tree whose entries stand in the order of their names. -/
def Entry.Ordered : Entry → Prop := Everywhere fun names => names.Pairwise (· < ·)

namespace Batch

/-- The path of a location below a directory. -/
def descend (path : Text) (location : List Text) : Text :=
  location.foldl (fun path name => join [path, name]) path

/-- Whether a walk from a directory is to pick up what is at a location below it: a file with one of
the endings, and not under a directory whose name starts with a dot. -/
structure Wanted (o : Options) (path : Text) (directory : Entry) (location : List Text) : Prop where
  isFile : ∃ content executable, directory.find? location = some (.file content executable)
  plain : ∀ name ∈ location.dropLast, Text.begins "." name = false
  ending : ∃ ending ∈ o.endings, ending <:+ descend path location

variable {o : Options} {path name : Text}

theorem matches_iff : o.matches path = true ↔ ∃ ending ∈ o.endings, ending <:+ path := by
  simp [Options.matches]

theorem Wanted.congr {directory other : Entry} {location : List Text}
    (same : directory.find? location = other.find? location) :
    Wanted o path directory location ↔ Wanted o path other location :=
  ⟨fun ⟨isFile, plain, ending⟩ => ⟨same ▸ isFile, plain, ending⟩,
    fun ⟨isFile, plain, ending⟩ => ⟨same ▸ isFile, plain, ending⟩⟩

theorem not_wanted {directory : Entry} {location : List Text}
    (none : ∀ content executable, directory.find? location ≠ some (.file content executable)) :
    ¬Wanted o path directory location := by
  rintro ⟨⟨content, executable, found⟩, -, -⟩
  exact none content executable found

/-- What is wanted lies under one of the names. -/
theorem exists_of_wanted {entries : List (Text × Entry)} {location : List Text}
    (wanted : Wanted o path (.directory entries) location) :
    ∃ name entry rest, location = name :: rest ∧ (name, entry) ∈ entries := by
  obtain ⟨⟨content, executable, found⟩, -, -⟩ := wanted
  cases location with
  | nil => cases found
  | cons name rest =>
    obtain ⟨entry, here, -⟩ := Option.bind_eq_some_iff.1 found
    obtain ⟨before, after, rfl, -⟩ := List.lookup_eq_some_iff.1 here
    exact ⟨name, entry, rest, rfl, by simp⟩

/-- The first entry of a directory and the others are looked through one after the other. -/
theorem wanted_cons {entry : Entry} {rest : List (Text × Entry)}
    (fresh : ∀ other ∈ rest, name < other.1)
    (location : List Text) : Wanted o path (.directory ((name, entry) :: rest)) location ↔
      Wanted o path (.directory [(name, entry)]) location ∨
      Wanted o path (.directory rest) location := by
  cases location with
  | nil =>
    have none (entries : List (Text × Entry)) : ¬Wanted o path (.directory entries) [] :=
      not_wanted fun _ _ => by simp [Entry.find?]
    simp only [none, or_self]
  | cons first below =>
    by_cases same : first = name
    · subst same
      have absent : rest.lookup first = none := by
        rw [List.lookup_eq_none_iff]
        intro other member
        rw [bne_iff_ne]
        exact fun same => List.lt_irrefl first (same ▸ fresh other member)
      have elsewhere : ¬Wanted o path (.directory rest) (first :: below) :=
        not_wanted fun _ _ => by simp [Entry.find?, absent]
      rw [or_iff_left elsewhere]
      exact Wanted.congr (by simp [Entry.find?])
    · have elsewhere : ¬Wanted o path (.directory [(name, entry)]) (first :: below) :=
        not_wanted fun _ _ => by simp [Entry.find?, List.lookup_cons, beq_false_of_ne same]
      rw [or_iff_right elsewhere]
      exact Wanted.congr (by simp [Entry.find?, List.lookup_cons, beq_false_of_ne same])

/-- A directory is entered unless its name starts with a dot. -/
theorem wanted_directory (entries : List (Text × Entry)) (location : List Text) :
    Wanted o path (.directory [(name, .directory entries)]) location ↔
      Text.begins "." name = false ∧ ∃ rest, location = name :: rest ∧
        Wanted o (join [path, name]) (.directory entries) rest := by
  constructor
  · intro wanted
    obtain ⟨first, entry, rest, rfl, member⟩ := exists_of_wanted wanted
    cases List.mem_singleton.1 member
    obtain ⟨⟨content, executable, found⟩, plain, ending⟩ := wanted
    have inner : (Entry.directory entries).find? rest = some (.file content executable) := by
      simpa [Entry.find?] using found
    cases rest with
    | nil => cases inner
    | cons next rest =>
      rw [List.dropLast_cons_cons, List.forall_mem_cons] at plain
      exact ⟨plain.1, next :: rest, rfl, ⟨content, executable, inner⟩, plain.2, ending⟩
  · rintro ⟨undotted, rest, rfl, ⟨content, executable, found⟩, plain, ending⟩
    refine ⟨⟨content, executable, by simpa [Entry.find?] using found⟩, ?_, ending⟩
    cases rest with
    | nil => exact List.forall_mem_nil _
    | cons next rest =>
      rw [List.dropLast_cons_cons]
      exact List.forall_mem_cons.2 ⟨undotted, plain⟩

theorem wanted_file {content : Text} {executable : Bool} (location : List Text) :
    Wanted o path (.directory [(name, .file content executable)]) location ↔
      location = [name] ∧ o.matches (join [path, name]) = true := by
  rw [matches_iff]
  constructor
  · intro wanted
    obtain ⟨first, entry, rest, rfl, member⟩ := exists_of_wanted wanted
    cases List.mem_singleton.1 member
    obtain ⟨⟨_, _, found⟩, -, ending⟩ := wanted
    cases rest with
    | nil => exact ⟨rfl, ending⟩
    | cons => simp [Entry.find?] at found
  · rintro ⟨rfl, ending⟩
    exact ⟨⟨content, executable, by simp [Entry.find?]⟩, List.forall_mem_nil _, ending⟩

/-- A list holds the paths of all that is wanted below a directory, in the order of the
locations. -/
def Picks (o : Options) (path : Text) (directory : Entry) (paths : List Text) : Prop :=
  ∃ locations : List (List Text), locations.Pairwise (· < ·) ∧
    (∀ location, location ∈ locations ↔ Wanted o path directory location) ∧
    paths = locations.map (descend path)

mutual

theorem walkEntry_picks (o : Options) (path name : Text) : ∀ entry : Entry, entry.Ordered →
    Picks o path (.directory [(name, entry)]) (walkEntry o (join [path, name]) name entry)
  | .file content executable, _ => by
    rw [walkEntry]
    by_cases ending : o.matches (join [path, name]) = true
    · rw [if_pos ending]
      exact ⟨[[name]], List.pairwise_singleton _ _, by simp [wanted_file, ending], rfl⟩
    · rw [if_neg ending]
      exact ⟨[], .nil, by simp [wanted_file, ending], rfl⟩
  | .directory entries, ordered => by
    rw [walkEntry]
    cases dotted : Text.begins "." name with
    | true => exact ⟨[], .nil, by simp [wanted_directory, dotted], rfl⟩
    | false =>
      obtain ⟨locations, sorted, members, paths⟩ :=
        walk_picks o (join [path, name]) entries ordered
      refine ⟨locations.map (name :: ·), ?_, ?_, ?_⟩
      · rw [List.pairwise_map]
        exact sorted.imp fun less => List.cons_lt_cons_iff.2 (.inr ⟨rfl, less⟩)
      · intro location
        simp only [List.mem_map, members, wanted_directory, dotted, true_and]
        exact ⟨fun ⟨rest, wanted, same⟩ => ⟨rest, same.symm, wanted⟩,
          fun ⟨rest, same, wanted⟩ => ⟨rest, wanted, same.symm⟩⟩
      · rw [if_neg Bool.false_ne_true, paths, List.map_map]
        rfl

theorem walk_picks (o : Options) (path : Text) : ∀ entries : List (Text × Entry),
    (Entry.directory entries).Ordered → Picks o path (.directory entries) (walk o path entries)
  | [], _ => by
    refine ⟨[], .nil, fun location => ?_, rfl⟩
    rw [iff_false_left List.not_mem_nil]
    intro wanted
    obtain ⟨name, entry, rest, -, member⟩ := exists_of_wanted wanted
    cases member
  | (name, entry) :: rest, ordered => by
    obtain ⟨names, inside⟩ := Entry.everywhere_directory.1 ordered
    rw [List.map_cons, List.pairwise_cons, List.forall_mem_map] at names
    rw [List.forall_mem_cons] at inside
    obtain ⟨fresh, others⟩ := names
    obtain ⟨inner, below⟩ := inside
    obtain ⟨here, sorted, members, paths⟩ := walkEntry_picks o path name entry inner
    obtain ⟨there, sorted', members', paths'⟩ := walk_picks o path rest (.directory others below)
    refine ⟨here ++ there, ?_, ?_, ?_⟩
    · refine List.pairwise_append.2 ⟨sorted, sorted', fun first member second member' => ?_⟩
      obtain ⟨_, _, _, rfl, only⟩ := exists_of_wanted ((members first).1 member)
      cases List.mem_singleton.1 only
      obtain ⟨_, _, _, rfl, later⟩ := exists_of_wanted ((members' second).1 member')
      exact List.cons_lt_cons_iff.2 (.inl (fresh _ later))
    · intro location
      rw [List.mem_append, members, members', wanted_cons fresh]
    · rw [walk, paths, paths', List.map_append]

end

/-- What an expansion finds and what goes wrong in it. Of each argument that is a file there is its
path, and of each directory there are the files below it that are wanted; a path is listed where it
first appears. An argument that is missing is one failure and changes nothing else. -/
theorem expand_complete (o : Options) {files : Files} (ordered : files.root.Ordered)
    (paths : List Text) :
    ((expand o files paths).sources.map Source.path).Nodup ∧
    (∃ found : Text → List Text,
      (expand o files paths).sources.map Source.path = (paths.flatMap found).eraseDups ∧
      (∀ path content executable, files.stat path = .ok (.file content executable) →
        found path = [path]) ∧
      (∀ path entries, files.stat path = .ok (.directory entries) →
        Picks o path (.directory entries) (found path)) ∧
      ∀ path error, files.stat path = .error error → found path = []) ∧
    (∃ failures : Text → List Failure,
      (expand o files paths).failures = paths.flatMap failures ∧
      (∀ path entry, files.stat path = .ok entry → failures path = []) ∧
      (∀ path, files.stat path = .error .missing →
        failures path = [.notFound path (Suggest.paths files path)]) ∧
      ∀ path error, files.stat path = .error error → error ≠ .missing →
        failures path = [.input path (some (error.failure "stat" path))]) ∧
    ∀ before path after, paths = before ++ path :: after → files.stat path = .error .missing →
      (expand o files paths).sources = (expand o files (before ++ after)).sources ∧
      (expand o files paths).failures = (expand o files before).failures ++
        .notFound path (Suggest.paths files path) :: (expand o files after).failures := by
  refine ⟨nodup_expand o files paths,
    ⟨fun path => (added o files path).map Source.path, ?_, ?_, ?_, ?_⟩,
    ⟨refused files, ?_, ?_, ?_, ?_⟩, ?_⟩
  · rw [expand_eq, Source.paths_distinct, List.map_flatMap]
  · intro path content executable stat
    simp [added, stat]
  · intro path entries stat
    obtain ⟨-, location, -, there⟩ := Files.of_stat stat
    have inner := ordered.find? there
    have same : (added o files path).map Source.path = walk o path entries := by
      simp only [added, stat, List.map_map]
      exact List.map_id _
    change Picks o path (.directory entries) ((added o files path).map Source.path)
    rw [same]
    exact walk_picks o path entries inner
  · intro path error stat
    simp [added, stat]
  · rw [expand_eq]
  · intro path entry stat
    simp [refused, stat]
  · intro path stat
    simp [refused, stat]
  · intro path error stat other
    cases error <;> simp [refused, stat] at other ⊢
  · rintro before path after rfl stat
    simp [expand_eq, added, refused, stat]

/-- Scripts below directories of which two are hidden. -/
def sheltered : Files :=
  ⟨.directory [(".ci", .directory [("a.sh", .file "echo a\n" false)]),
    ("s", .directory [("..b.sh", .file "echo b\n" false),
      (".git", .directory [("c.sh", .file "echo c\n" false)]),
      ("d", .directory [("e.bash", .file "echo e\n" false), ("e.txt", .file "e" false)])])], []⟩

theorem sheltered_ordered : sheltered.root.Ordered := by
  simp only [sheltered, Entry.Ordered, Entry.everywhere_directory, List.forall_mem_cons,
    List.not_mem_nil, false_imp_iff, implies_true, Entry.everywhere_file]
  decide

theorem expand_complete_sheltered : sheltered.root.Ordered ∧
    (expand ⟨.standard, [], false, []⟩ sheltered ["s", "no.sh", ".ci", "s/d/e.bash",
      "s/d"]).sources.map Source.path =
      ["s/..b.sh", "s/d/e.bash", ".ci/a.sh"] ∧
    (expand ⟨.standard, [], false, []⟩ sheltered ["s", "no.sh", ".ci", "s/d/e.bash",
      "s/d"]).sources =
      (expand ⟨.standard, [], false, []⟩ sheltered ["s", ".ci", "s/d/e.bash", "s/d"]).sources := by
  have missing : sheltered.stat "no.sh" = .error .missing := by rfl
  obtain ⟨-, -, -, others⟩ := expand_complete ⟨.standard, [], false, []⟩ sheltered_ordered
    ["s", "no.sh", ".ci", "s/d/e.bash", "s/d"]
  exact ⟨sheltered_ordered, by decide +kernel, (others ["s"] _ _ rfl missing).1⟩

/-- Where a source lies: a file that was given lies by its name in its directory, and any other one
at a location below a directory that was given. -/
inductive Lies (files : Files) (paths : List Text) : Source → List Text → Prop
  | given {path content : Text} {executable : Bool} (argument : path ∈ paths)
      (stat : files.stat path = .ok (.file content executable)) :
      Lies files paths ⟨path, dir path⟩ [file path]
  | below {root content : Text} {executable : Bool} {entries : List (Text × Entry)}
      {location : List Text}
      (argument : root ∈ paths) (stat : files.stat root = .ok (.directory entries))
      (there : (Entry.directory entries).find? location = some (.file content executable)) :
      Lies files paths ⟨descend root location, root⟩ location

theorem Reached.descend {root path : Text} {between location : List Text}
    (reached : Reached root path between) (names : ∀ name ∈ location, IsName name) :
    Reached root (descend path location) (between ++ location) := by
  induction location generalizing path between with
  | nil => rwa [List.append_nil]
  | cons name location ih =>
    rw [List.forall_mem_cons] at names
    rw [← List.singleton_append, ← List.append_assoc]
    exact ih (reached.step names.1).1 names.2

theorem file_descend {path : Text} {location : List Text} {name : Text} (spelled : path ≠ [])
    (names : ∀ other ∈ location ++ [name], IsName other) :
    file (descend path (location ++ [name])) = name := by
  obtain ⟨before, last⟩ := List.forall_mem_append.1 names
  rw [Batch.descend, List.foldl_append]
  exact (((Reached.start spelled).descend before).step (last name (List.mem_singleton_self name))).2

/-- Each source lies below its argument, under no directory whose name starts with a dot. -/
theorem exists_lies {files : Files} (named : files.root.Named) (ordered : files.root.Ordered)
    {paths : List Text} {s : Source} (member : s ∈ (expand o files paths).sources) :
    ∃ between, Lies files paths s (between ++ [file s.path]) ∧
      Reached s.root s.path (between ++ [file s.path]) ∧
      ∀ name ∈ between, Text.begins "." name = false := by
  obtain ⟨path, argument, member⟩ := exists_added member
  rw [added] at member
  split at member
  · cases member
  · next stat =>
    rw [List.mem_singleton.1 member]
    exact ⟨[], .given argument stat, reached_of_stat stat, List.forall_mem_nil _⟩
  · next entries stat =>
    obtain ⟨found, inside, rfl⟩ := List.mem_map.1 member
    obtain ⟨spelled, place, -, here⟩ := Files.of_stat stat
    have inner := ordered.find? here
    obtain ⟨locations, -, members, listed⟩ := walk_picks o path entries inner
    rw [listed] at inside
    obtain ⟨location, wanted, rfl⟩ := List.mem_map.1 inside
    obtain ⟨⟨content, executable, there⟩, plain, -⟩ := (members location).1 wanted
    have below : (Entry.directory entries).Named := named.find? here
    have names := below.names_of_find? there
    have some : location ≠ [] := by
      rintro rfl
      cases there
    obtain ⟨between, name, rfl⟩ : ∃ between name, location = between ++ [name] :=
      ⟨_, _, (List.dropLast_append_getLast some).symm⟩
    rw [List.dropLast_concat] at plain
    refine ⟨between, ?_, ?_, plain⟩
    · rw [file_descend spelled names]
      exact .below argument stat there
    · rw [file_descend spelled names]
      exact (Reached.start spelled).descend names

theorem leavesStart_of_plain {first : Text} {rest : List Text} (isName : IsName first)
    (plain : Text.begins "." first = false) :
    leavesStart (Text.join "/" (first :: rest)) = false := by
  obtain ⟨b, first, rfl⟩ := List.exists_cons_of_ne_nil isName.nonempty
  have single : Text.begins "." (b :: first) = ((Ascii.dot == b) && true) := rfl
  have double (more : Text) : leavesStart (b :: more) =
      ((Ascii.dot == b) && List.isPrefixOf [Ascii.dot] more) := rfl
  rw [single, Bool.and_true] at plain
  cases rest with
  | nil => rw [Text.join, List.intercalate_singleton, double, plain, Bool.false_and]
  | cons =>
    rw [Text.join, List.intercalate_cons_cons, List.cons_append, List.cons_append, double, plain,
      Bool.false_and]

/-- In a directory for all outputs, an output lies as its source does below its argument, with the
extension of an output; no step leads out of that directory. -/
theorem outputPath_mirrors (o : Options) {files : Files} (named : files.root.Named)
    (ordered : files.root.Ordered) (paths : List Text) (apart : o.inPlace = false)
    (some : o.outDir ≠ []) :
    ∀ s ∈ (expand o files paths).sources, ∃ location, Lies files paths s location ∧
      o.outputPath s = join [o.outDir, withoutExtension (Text.join "/" location) ++ ".js"] ∧
      relative? o.outDir (o.outputPath s) =
        Option.some (withoutExtension (Text.join "/" location) ++ ".js") ∧
      parent ∉ parts (withoutExtension (Text.join "/" location) ++ ".js") := by
  intro s member
  obtain ⟨between, lies, reached, plain⟩ := exists_lies named ordered member
  obtain ⟨names, own⟩ := List.forall_mem_append.1 reached.names
  have placed : s.Placed between (withoutExtension (file s.path) ++ ".js") :=
    Source.placed_of_under (own _ (List.mem_singleton_self _)) reached.rooted names
      (by rw [reached.under, List.append_assoc])
  have inside : s.inside = s.below := by
    obtain ⟨front, isFolder, spelled⟩ := placed.spelled
    rw [Source.inside, placed.below]
    cases between with
    | nil =>
      rw [spelled, file_append isFolder (placed.names _ (by simp)).no_slash,
        List.nil_append, ite_self]
    | cons first between =>
      rw [List.cons_append, leavesStart_of_plain (names first List.mem_cons_self)
        (plain first List.mem_cons_self), if_neg Bool.false_ne_true]
  have spelled : withoutExtension (Text.join "/" (between ++ [file s.path])) ++ ".js" =
      Text.join "/" s.below := by
    obtain ⟨front, isFolder, spelled⟩ := exists_folder_join between
    rw [placed.below, spelled, spelled,
      withoutExtension_append isFolder (own _ (List.mem_singleton_self _)).no_slash,
      List.append_assoc]
  have proper : ∀ part ∈ s.below, IsName part := placed.below ▸ placed.names
  have further : s.below ≠ [] := by simp [placed.below]
  have output : o.outputPath s = join [o.outDir, Text.join "/" s.below] := by
    rw [outputPath_inside apart some (reached.found rfl), inside]
  refine ⟨between ++ [file s.path], lies, ?_, ?_, ?_⟩
  · rw [spelled, output]
  · rw [spelled, output]
    exact relative?_below further (isRooted_joined some _) (cleanParts_join some further proper)
  · rw [spelled, parts_join further fun part member => (proper part member).no_slash]
    exact fun up => (proper parent up).not_up rfl

theorem outputPath_mirrors_sheltered : sheltered.root.Named ∧ sheltered.root.Ordered ∧
    Options.outputPath ⟨.standard, [], false, "out/../dist"⟩ ⟨"./s/d/e.bash", "./s/"⟩ =
    "dist/d/e.js" ∧
    ∀ s ∈ (expand ⟨.standard, [], false, "out/../dist"⟩ sheltered ["./s/", "s/..b.sh"]).sources,
      ∃ location, Lies sheltered ["./s/", "s/..b.sh"] s location ∧
        Options.outputPath ⟨.standard, [], false, "out/../dist"⟩ s =
          join ["out/../dist", withoutExtension (Text.join "/" location) ++ ".js"] := by
  have named : sheltered.root.Named := by
    simp only [sheltered, Entry.Named, Entry.everywhere_directory, List.forall_mem_cons,
      List.not_mem_nil, false_imp_iff, implies_true, Entry.everywhere_file]
    decide
  refine ⟨named, sheltered_ordered, by decide +kernel, fun s member => ?_⟩
  obtain ⟨location, lies, output, -⟩ :=
    outputPath_mirrors ⟨.standard, [], false, "out/../dist"⟩ named
    sheltered_ordered ["./s/", "s/..b.sh"] rfl (by decide) s member
  exact ⟨location, lies, output⟩

end Batch

end ShellToDeno
