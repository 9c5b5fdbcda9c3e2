import ShellToDeno.Batch.Source
import ShellToDeno.Proofs.Batch.Entries
import ShellToDeno.Proofs.Batch.Paths

/-!
# Outputs of a batch

Every source lies below the argument it was found under: a file that was given lies in its own
directory, and each step of a walk adds a name. `Source.Found` says so; what an argument adds keeps
it. From it follows where the outputs go, and which of them meet.
-/
namespace ShellToDeno

open ShellToDeno.Path

/-- A tree whose entries have names. -/
def Entry.Named : Entry → Prop := Everywhere fun names => ∀ name ∈ names, IsName name

theorem Entry.Named.inside {entries : List (Text × Entry)} (named : (directory entries).Named) :
    ∀ e ∈ entries, IsName e.1 ∧ e.2.Named := by
  obtain ⟨names, inside⟩ := everywhere_directory.1 named
  exact fun e member => ⟨names e.1 (List.mem_map_of_mem member), inside e member⟩

theorem Entry.Named.names_of_find? {root entry : Entry} (named : root.Named) {location : List Text}
    (found : root.find? location = some entry) : ∀ name ∈ location, IsName name := by
  induction location generalizing root with
  | nil => exact List.forall_mem_nil _
  | cons name rest ih =>
    cases root with
    | file => cases found
    | directory entries =>
      obtain ⟨next, here, found⟩ := Option.bind_eq_some_iff.1 found
      obtain ⟨isName, inner⟩ := named.inside _ (mem_of_lookup here)
      exact List.forall_mem_cons.2 ⟨isName, ih inner found⟩

/-- What an entry is in, is a directory. -/
theorem Entry.find?_dropLast {root entry : Entry} {location : List Text} (inside : location ≠ [])
    (found : root.find? location = some entry) :
    ∃ entries, root.find? location.dropLast = some (.directory entries) := by
  induction location generalizing root with
  | nil => exact absurd rfl inside
  | cons name rest ih =>
    cases root with
    | file => cases found
    | directory entries =>
      cases rest with
      | nil => exact ⟨entries, rfl⟩
      | cons next rest =>
        obtain ⟨there, here, found⟩ := Option.bind_eq_some_iff.1 found
        obtain ⟨inner, last⟩ := ih (by simp) found
        exact ⟨inner, by simp only [List.dropLast_cons_cons, Entry.find?, here]; exact last⟩

namespace Files
variable {files : Files}

/-- The last step to a file is neither a step in place nor a step up. -/
theorem name_of_follow {part : Text} {location final : List Text} {content : Text}
    {executable : Bool} (followed : files.follow location [part] = .ok final)
    (found : files.root.find? final = some (.file content executable)) :
    part ≠ [] ∧ part ≠ "." ∧ part ≠ parent := by
  rw [follow] at followed
  cases here : files.root.find? location with
  | none => simp [here] at followed
  | some entry =>
    cases entry with
    | file => simp [here] at followed
    | directory entries =>
      simp only [here, follow] at followed
      have stays (same : part = [] ∨ part = ".") : False := by
        rw [if_pos (by rcases same with rfl | rfl <;> rfl)] at followed
        cases followed
        rw [here] at found
        cases found
      refine ⟨fun same => stays (.inl same), fun same => stays (.inr same), ?_⟩
      rintro rfl
      rw [if_neg (by decide), if_pos (by rfl)] at followed
      cases followed
      by_cases top : location = []
      · subst top
        rw [List.dropLast_nil, here] at found
        cases found
      · obtain ⟨above, directory⟩ := Entry.find?_dropLast top here
        rw [directory] at found
        cases found

theorem exists_last_step {part : Text} {before location final : List Text}
    (followed : files.follow location (before ++ [part]) = .ok final) :
    ∃ there, files.follow there [part] = .ok final := by
  induction before generalizing location with
  | nil => exact ⟨location, followed⟩
  | cons step before ih =>
    rw [List.cons_append, follow] at followed
    split at followed
    · cases followed
    · cases followed
    · split at followed
      · exact ih followed
      · split at followed
        · exact ih followed
        · split at followed
          · cases followed
          · split at followed
            · exact ih followed
            · cases followed

theorem of_stat {path : Text} {entry : Entry} (stat : files.stat path = .ok entry) :
    path ≠ [] ∧ ∃ location, files.follow (files.start path) (parts path) = .ok location ∧
      files.root.find? location = some entry := by
  rw [Files.stat] at stat
  split at stat
  · cases stat
  next location located =>
  split at stat
  · next entry found =>
    cases stat
    rw [locate] at located
    split at located
    · cases located
    next spelled =>
    split at located
    · cases located
    · exact ⟨by simpa using spelled, location, located, found⟩
  · cases stat

/-- The path of a file ends in a name. -/
theorem isName_of_stat {path content : Text} {executable : Bool}
    (stat : files.stat path = .ok (.file content executable)) : IsName (file path) := by
  obtain ⟨-, location, followed, found⟩ := of_stat stat
  obtain ⟨before, split⟩ := List.getLast?_eq_some_iff.1 (getLast?_parts path)
  rw [split] at followed
  obtain ⟨there, last⟩ := exists_last_step followed
  obtain ⟨nonempty, not_here, not_up⟩ := name_of_follow last found
  exact ⟨nonempty, not_here, not_up, no_slash_of_mem_parts (by rw [split]; simp)⟩

end Files

namespace Batch

namespace Source

/-- The path beside a source, with the extension of an output. -/
def beside (s : Source) : Text := withoutExtension s.path ++ ".js"

/-- The parts of that path below the argument under which the source was found. -/
def below (s : Source) : List Text := (cleanParts s.beside).drop (cleanParts s.root).length

/-- The parts of the output in a directory for all outputs. What begins with two dots might lead
out of it, and goes into it by its name alone. -/
def inside (s : Source) : List Text :=
  if leavesStart (Text.join "/" s.below) then [file s.beside] else s.below

/-- A source that lies below the argument under which it was found. -/
structure Found (s : Source) : Prop where
  named : IsName (file s.path)
  rooted : isRooted s.path = isRooted s.root
  under : ∃ between, (∀ n ∈ between, IsName n) ∧
    cleanParts s.path = cleanParts s.root ++ between ++ [file s.path]

/-- What is known of the output of such a source. -/
structure Placed (s : Source) (between : List Text) (name : Text) : Prop where
  names : ∀ n ∈ between ++ [name], IsName n
  below : s.below = between ++ [name]
  parts : cleanParts s.beside = cleanParts s.root ++ s.below
  rooted : isRooted s.beside = isRooted s.root
  spelled : ∃ front, IsFolder front ∧ s.beside = front ++ name
  extension : extension name = ".js"

theorem placed_of_under {s : Source} {between : List Text} (named : IsName (file s.path))
    (rooted : isRooted s.path = isRooted s.root) (names : ∀ n ∈ between, IsName n)
    (under : cleanParts s.path = cleanParts s.root ++ between ++ [file s.path]) :
    s.Placed between (withoutExtension (file s.path) ++ ".js") := by
  obtain ⟨front, name, split, isFolder, whole⟩ := exists_folder s.path
  have own : file s.path = name := by rw [split, file_append isFolder whole]
  rw [own] at named under ⊢
  rw [split, cleanParts_folder isFolder named] at under
  rw [split, isRooted_folder isFolder whole] at rooted
  obtain ⟨above, -⟩ := List.append_inj' under rfl
  have stem : Ascii.slash ∉ withoutExtension name := by
    intro inside
    rw [← withoutExtension_append_extension name] at whole
    exact whole (List.mem_append_left _ inside)
  have output := isName_output stem
  have spelled : s.beside = front ++ (withoutExtension name ++ ".js") := by
    rw [beside, split, withoutExtension_append isFolder whole, List.append_assoc]
  have parts : cleanParts s.beside = cleanParts s.root ++
      (between ++ [withoutExtension name ++ ".js"]) := by
    rw [spelled, cleanParts_folder isFolder output, above, List.append_assoc]
  have below : s.below = between ++ [withoutExtension name ++ ".js"] := by
    rw [Source.below, parts, List.drop_left]
  refine ⟨?_, below, by rw [parts, below], ?_, ⟨front, isFolder, spelled⟩, extension_output _⟩
  · intro n member
    rcases List.mem_append.1 member with member | member
    · exact names n member
    · exact List.mem_singleton.1 member ▸ output
  · rw [spelled, isRooted_folder isFolder output.no_slash, rooted]

theorem Found.placed {s : Source} (found : s.Found) : ∃ between name, s.Placed between name := by
  obtain ⟨named, rooted, between, names, under⟩ := found
  exact ⟨between, _, placed_of_under named rooted names under⟩

end Source

section
variable {o : Options} {s t : Source}

theorem outputPath_beside (apart : o.inPlace = false) (none : o.outDir = []) :
    o.outputPath s = s.beside := by
  simp [Options.outputPath, apart, none, Source.beside]

theorem Source.Placed.inside_names {between : List Text} {name : Text}
    (placed : s.Placed between name) :
    s.inside ≠ [] ∧ (∀ n ∈ s.inside, IsName n) ∧ s.inside.getLast? = some name := by
  obtain ⟨front, isFolder, spelled⟩ := placed.spelled
  have last : IsName name := placed.names name (by simp)
  have named : file s.beside = name := by rw [spelled, file_append isFolder last.no_slash]
  rw [Source.inside]
  split
  · rw [named]
    exact ⟨by simp, by simpa using last, rfl⟩
  · rw [placed.below]
    exact ⟨by simp, placed.names, by simp⟩

/-- In a directory for all outputs, the parts of an output are those of that directory and more. -/
theorem outputPath_inside (apart : o.inPlace = false) (some : o.outDir ≠ []) (found : s.Found) :
    o.outputPath s = join [o.outDir, Text.join "/" s.inside] := by
  obtain ⟨between, name, placed⟩ := found.placed
  obtain ⟨front, isFolder, spelled⟩ := placed.spelled
  have last : IsName name := placed.names name (by simp)
  have way : relative? s.root s.beside = Option.some (Text.join "/" s.below) :=
    relative?_below (by simp [placed.below]) placed.rooted placed.parts
  have base : base s.beside = file s.beside := by
    rw [spelled, base_append isFolder last, file_append isFolder last.no_slash]
  simp only [Options.outputPath, apart, Bool.false_eq_true, if_false, List.isEmpty_iff, some]
  rw [← Source.beside, way]
  dsimp only
  rw [Source.inside, base]
  split
  · simp [Text.join]
  · rfl

theorem outputPath_eq_iff (apart : o.inPlace = false) (some : o.outDir ≠ []) (first : s.Found)
    (second : t.Found) : o.outputPath s = o.outputPath t ↔ s.inside = t.inside := by
  rw [outputPath_inside apart some first, outputPath_inside apart some second]
  constructor
  · intro same
    obtain ⟨_, _, placed⟩ := first.placed
    obtain ⟨_, _, placed'⟩ := second.placed
    have parts := congrArg cleanParts same
    rw [cleanParts_join some placed.inside_names.1 placed.inside_names.2.1,
      cleanParts_join some placed'.inside_names.1 placed'.inside_names.2.1] at parts
    exact List.append_cancel_left parts
  · intro same
    rw [same]

theorem extension_outputPath (apart : o.inPlace = false) (found : s.Found) :
    extension (o.outputPath s) = ".js" := by
  by_cases none : o.outDir = []
  · rw [outputPath_beside apart none]
    exact extension_output _
  · obtain ⟨between, name, placed⟩ := found.placed
    obtain ⟨some, names, last⟩ := placed.inside_names
    obtain ⟨before, split⟩ := List.getLast?_eq_some_iff.1 last
    have proper : IsName name := placed.names name (by simp)
    have parts : cleanParts (o.outDir ++ Ascii.slash :: Text.join "/" s.inside) =
        (cleanParts o.outDir ++ before) ++ [name] := by
      rw [cleanParts_below none some names, split, List.append_assoc]
    obtain ⟨front, isFolder, spelled⟩ := exists_folder_clean proper parts
    rw [outputPath_inside apart none found, join_pair none, spelled,
      extension_append isFolder proper.no_slash, placed.extension]

end

/-! The sources that the arguments stand for. -/

/-- What a walk from an argument has come to through some names. -/
structure Reached (root path : Text) (between : List Text) : Prop where
  spelled : path ≠ []
  rooted : isRooted path = isRooted root
  names : ∀ n ∈ between, IsName n
  under : cleanParts path = cleanParts root ++ between

theorem Reached.start {root : Text} (spelled : root ≠ []) : Reached root root [] :=
  ⟨spelled, rfl, List.forall_mem_nil _, by simp⟩

/-- One step of a walk. -/
theorem Reached.step {root path name : Text} {between : List Text}
    (reached : Reached root path between)
    (isName : IsName name) :
    Reached root (join [path, name]) (between ++ [name]) ∧ file (join [path, name]) = name := by
  obtain ⟨spelled, rooted, names, under⟩ := reached
  have single : Text.join "/" [name] = name := List.intercalate_singleton
  have parts : cleanParts (path ++ Ascii.slash :: name) = cleanParts path ++ [name] := by
    have names : ∀ n ∈ [name], IsName n := by simpa using isName
    have below := cleanParts_below spelled (List.cons_ne_nil name []) names
    rwa [single] at below
  obtain ⟨front, isFolder, ends⟩ := exists_folder_clean isName parts
  rw [join_pair spelled]
  refine ⟨⟨?_, ?_, ?_, ?_⟩, ?_⟩
  · rw [ends]
    simp [isName.nonempty]
  · rw [← join_pair spelled, isRooted_joined spelled, rooted]
  · rw [List.forall_mem_append]
    exact ⟨names, by simpa using isName⟩
  · rw [cleanParts_clean, parts, under, List.append_assoc]
  · rw [ends, file_append isFolder isName.no_slash]

theorem Reached.found {root path name : Text} {between : List Text}
    (reached : Reached root path (between ++ [name])) (last : file path = name) :
    Source.Found ⟨path, root⟩ := by
  obtain ⟨names, own⟩ := List.forall_mem_append.1 reached.names
  refine ⟨?_, reached.rooted, between, names, ?_⟩
  · rw [last]
    exact own name (List.mem_singleton_self name)
  · rw [reached.under, last, List.append_assoc]

mutual

theorem found_of_walkEntry (o : Options) {root path name : Text} {between : List Text}
    (reached : Reached root path between) (found : Source.Found ⟨path, root⟩) :
    ∀ entry : Entry, entry.Named → ∀ p ∈ walkEntry o path name entry, Source.Found ⟨p, root⟩
  | .file _ _, _, p, member => by
    rw [walkEntry] at member
    split at member
    · rwa [List.mem_singleton.1 member]
    · cases member
  | .directory entries, named, p, member => by
    rw [walkEntry] at member
    split at member
    · cases member
    · exact found_of_walk o reached entries named.inside p member

theorem found_of_walk (o : Options) {root path : Text} {between : List Text}
    (reached : Reached root path between) :
    ∀ entries : List (Text × Entry), (∀ e ∈ entries, IsName e.1 ∧ e.2.Named) →
      ∀ p ∈ walk o path entries, Source.Found ⟨p, root⟩
  | [], _, p, member => by cases member
  | (name, entry) :: rest, named, p, member => by
    rw [List.forall_mem_cons] at named
    rw [walk] at member
    rcases List.mem_append.1 member with member | member
    · obtain ⟨further, last⟩ := reached.step named.1.1
      exact found_of_walkEntry o further (further.found last) entry named.1.2 p member
    · exact found_of_walk o reached rest named.2 p member

end

/-- A file that was given lies in its own directory. -/
theorem reached_of_stat {files : Files} {path content : Text} {executable : Bool}
    (stat : files.stat path = .ok (.file content executable)) :
    Reached (dir path) path [file path] := by
  have named := Files.isName_of_stat stat
  obtain ⟨front, name, rfl, isFolder, whole⟩ := exists_folder path
  have own : dir (front ++ name) = clean front := by rw [dir, folder_append isFolder whole]
  rw [file_append isFolder whole] at named ⊢
  refine ⟨by simp [named.nonempty], ?_, by simpa using named, ?_⟩
  · rw [own, isRooted_clean, isRooted_folder isFolder whole]
  · rw [own, cleanParts_clean, cleanParts_folder isFolder named]

/-- What one argument stands for. -/
def added (o : Options) (files : Files) (path : Text) : List Source :=
  match files.stat path with
  | .error _ => []
  | .ok (.file _ _) => [⟨path, dir path⟩]
  | .ok (.directory entries) => (walk o path entries).map (⟨·, path⟩)

/-- What goes wrong with one argument. -/
def refused (files : Files) (path : Text) : List Failure :=
  match files.stat path with
  | .error .missing => [.notFound path (Suggest.paths files path)]
  | .error other => [.input path (some (other.failure "stat" path))]
  | .ok _ => []

namespace Source

def addTo (known : List Source) (s : Source) : List Source :=
  if known.any (·.path == s.path) then known else known ++ [s]

/-- The first source of each path. -/
def distinct (list : List Source) : List Source := list.foldl addTo []

theorem distinct_concat (list : List Source) (s : Source) :
    distinct (list ++ [s]) = addTo (distinct list) s := List.foldl_append

theorem paths_distinct (list : List Source) :
    (distinct list).map path = (list.map path).eraseDups := by
  induction list using List.reverseRecOn with
  | nil => rfl
  | append_singleton list s ih =>
    have known : (distinct list).any (·.path == s.path) = decide (s.path ∈ list.map path) := by
      rw [Bool.eq_iff_iff, decide_eq_true_eq, ← List.mem_eraseDups, ← ih, List.any_eq_true,
        List.mem_map]
      simp only [beq_iff_eq]
    rw [distinct_concat, addTo, known, List.map_append, List.map_singleton,
      Text.eraseDups_concat, ← ih]
    by_cases member : s.path ∈ list.map path
    · simp only [member, decide_true, if_true, List.append_nil]
    · simp only [member, decide_false, Bool.false_eq_true, if_false, List.map_append,
        List.map_singleton]

theorem mem_of_mem_distinct {list : List Source} {s : Source} (member : s ∈ distinct list) :
    s ∈ list := by
  induction list using List.reverseRecOn with
  | nil => exact member
  | append_singleton list last ih =>
    rw [distinct_concat, addTo] at member
    split at member
    · exact List.mem_append_left _ (ih member)
    · rw [List.mem_append] at member ⊢
      exact member.imp_left ih

end Source

theorem Expansion.foldl_add (e : Expansion) (list : List Source) :
    list.foldl add e = ⟨list.foldl Source.addTo e.sources, e.failures⟩ := by
  induction list generalizing e with
  | nil => rfl
  | cons s list ih =>
    have one : e.add s = ⟨Source.addTo e.sources s, e.failures⟩ := by
      rw [add, Source.addTo]
      split <;> rfl
    rw [List.foldl_cons, ih, one, List.foldl_cons]

theorem Expansion.addPath_eq (o : Options) (files : Files) (e : Expansion) (path : Text) :
    e.addPath o files path =
      ⟨(added o files path).foldl Source.addTo e.sources, e.failures ++ refused files path⟩ := by
  rw [addPath, added, refused]
  cases files.stat path with
  | error reason => cases reason <;> rfl
  | ok entry =>
    rw [List.append_nil, ← foldl_add]
    cases entry with
    | file => rfl
    | directory entries =>
      rw [List.foldl_map]

theorem expand_eq (o : Options) (files : Files) (paths : List Text) : expand o files paths =
    ⟨Source.distinct (paths.flatMap (added o files)), paths.flatMap (refused files)⟩ := by
  induction paths using List.reverseRecOn with
  | nil => rfl
  | append_singleton paths path ih =>
    rw [expand, List.foldl_append, ← expand, ih, List.foldl_cons, List.foldl_nil,
      Expansion.addPath_eq]
    simp [Source.distinct, List.flatMap_append, List.foldl_append]

theorem exists_added {o : Options} {files : Files} {paths : List Text} {s : Source}
    (member : s ∈ (expand o files paths).sources) : ∃ path ∈ paths, s ∈ added o files path := by
  rw [expand_eq] at member
  exact List.mem_flatMap.1 (Source.mem_of_mem_distinct member)

theorem nodup_expand (o : Options) (files : Files) (paths : List Text) :
    ((expand o files paths).sources.map Source.path).Nodup := by
  rw [expand_eq, Source.paths_distinct]
  exact Text.nodup_eraseDups _

theorem found_of_mem_expand {o : Options} {files : Files} (named : files.root.Named)
    {paths : List Text}
    {s : Source} (member : s ∈ (expand o files paths).sources) : s.Found := by
  obtain ⟨path, -, member⟩ := exists_added member
  rw [added] at member
  split at member
  · cases member
  · next stat =>
    rw [List.mem_singleton.1 member]
    have reached : Reached (dir path) path ([] ++ [file path]) := reached_of_stat stat
    exact reached.found rfl
  · next entries stat =>
    obtain ⟨found, inside, rfl⟩ := List.mem_map.1 member
    obtain ⟨spelled, location, -, there⟩ := Files.of_stat stat
    have below : (Entry.directory entries).Named := named.find? there
    exact found_of_walk o (Reached.start spelled) entries below.inside found inside

theorem outputPath_eq_path_iff {o : Options} {s t : Source} (apart : o.inPlace = false)
    (none : o.outDir = []) : o.outputPath s = t.path ↔
      withoutExtension s.path = withoutExtension t.path ∧ extension t.path = ".js" := by
  rw [outputPath_beside apart none, Source.beside]
  constructor
  · intro same
    rw [← same, withoutExtension_output, extension_output]
    exact ⟨rfl, rfl⟩
  · rintro ⟨stem, ending⟩
    rw [stem, ← ending, withoutExtension_append_extension]

/-- Which outputs meet. Beside their sources, those of sources that differ in the extension at most;
in a directory for all outputs, those that have the same parts below their arguments. Only a source
that has the extension of an output can be overwritten. -/
theorem outputs_meet_iff (o : Options) {files : Files} (named : files.root.Named)
    (paths : List Text)
    (apart : o.inPlace = false) :
    ((expand o files paths).sources.map Source.path).Nodup ∧
    ∀ s ∈ (expand o files paths).sources, ∀ t ∈ (expand o files paths).sources,
      (o.outDir = [] →
        (o.outputPath s = o.outputPath t ↔ withoutExtension s.path = withoutExtension t.path) ∧
        (o.outputPath s = t.path ↔
          withoutExtension s.path = withoutExtension t.path ∧ extension t.path = ".js")) ∧
      (o.outDir ≠ [] → (o.outputPath s = o.outputPath t ↔ s.inside = t.inside)) ∧
      (o.outputPath s = t.path → extension t.path = ".js") := by
  have found (s : Source) (member : s ∈ (expand o files paths).sources) : s.Found :=
    found_of_mem_expand named member
  refine ⟨nodup_expand o files paths, fun s first t second =>
    ⟨fun none => ⟨?_, outputPath_eq_path_iff apart none⟩,
    fun some => outputPath_eq_iff apart some (found s first) (found t second), fun same => ?_⟩⟩
  · rw [outputPath_beside apart none, outputPath_beside apart none]
    exact List.append_left_inj _
  · rw [← same]
    exact extension_outputPath apart (found s first)

/-- Three scripts of which two lie in one directory. -/
def scattered : Files :=
  ⟨.directory [("s", .directory [("a.sh", .file "echo a\n" false),
      ("ci", .directory [("a.sh", .file "echo b\n" false)])]),
    ("u", .directory [("a.sh", .file "echo c\n" false)])], []⟩

theorem outputs_meet_iff_scattered : scattered.root.Named ∧
    (expand ⟨.standard, [], false, "out"⟩ scattered ["s", "u/a.sh"]).sources =
      [⟨"s/a.sh", "s"⟩, ⟨"s/ci/a.sh", "s"⟩, ⟨"u/a.sh", "u"⟩] ∧
    Options.outputPath ⟨.standard, [], false, "out"⟩ ⟨"s/a.sh", "s"⟩ =
      Options.outputPath ⟨.standard, [], false, "out"⟩ ⟨"u/a.sh", "u"⟩ ∧
    Options.outputPath ⟨.standard, [], false, "out"⟩ ⟨"s/a.sh", "s"⟩ ≠
      Options.outputPath ⟨.standard, [], false, "out"⟩ ⟨"s/ci/a.sh", "s"⟩ := by
  have named : scattered.root.Named := by
    simp only [scattered, Entry.Named, Entry.everywhere_directory, List.forall_mem_cons,
      List.not_mem_nil, false_imp_iff, implies_true, Entry.everywhere_file]
    decide
  have sources : (expand ⟨.standard, [], false, "out"⟩ scattered ["s", "u/a.sh"]).sources =
      [⟨"s/a.sh", "s"⟩, ⟨"s/ci/a.sh", "s"⟩, ⟨"u/a.sh", "u"⟩] := by decide
  have meet := (outputs_meet_iff ⟨.standard, [], false, "out"⟩ named ["s", "u/a.sh"] rfl).2
  rw [sources] at meet
  have some : ("out" : Text) ≠ [] := by decide
  exact ⟨named, sources, ((meet _ (by simp) _ (by simp)).2.1 some).2 (by decide),
    fun same => absurd (((meet _ (by simp) _ (by simp)).2.1 some).1 same) (by decide)⟩

/-- Scripts with one name and different extensions. -/
def namesakes : Files :=
  ⟨.directory [("a.bash", .file "echo b\n" false), ("a.js", .file "echo c\n" false),
    ("a.sh", .file "echo a\n" false)], []⟩

/-- Outputs beside their sources meet, and one of them is another source. -/
theorem outputs_of_namesakes_meet :
    ¬((expand ⟨.standard, [], false, []⟩ namesakes [".", "a.js"]).sources.map
      (Options.outputPath ⟨.standard, [], false, []⟩)).Nodup ∧
    ∃ s ∈ (expand ⟨.standard, [], false, []⟩ namesakes [".", "a.js"]).sources,
      ∃ t ∈ (expand ⟨.standard, [], false, []⟩ namesakes [".", "a.js"]).sources,
        s ≠ t ∧ Options.outputPath ⟨.standard, [], false, []⟩ s = t.path := by
  decide

end Batch

end ShellToDeno
