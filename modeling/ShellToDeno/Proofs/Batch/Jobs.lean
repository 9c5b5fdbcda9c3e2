import Mathlib.Data.List.Nodup
import ShellToDeno.Batch.Report
import ShellToDeno.Proofs.Batch.Saves

/-!
# Jobs that do not meet

What a job does depends on what is seen at the path of its input and at that of its output, and on
nothing else. `Independent` says of some sources that no job writes what another one sees and that
every output can be written. Then each job does, after any others, what it does alone; and
converting the sources one after the other gives the results of each of them alone.
-/
namespace ShellToDeno

open ShellToDeno.Path

namespace Batch

namespace Job
variable {o : Options} {dryRun : Bool} {files after : Files} {source : Source}

/-- The file that the next step of a job writes. -/
def write? : Job → Option Write
  | .differing result code => some ⟨result.output, code, Text.begins "#!" code⟩
  | _ => none

/-- What comes of a file whose output is to be written. -/
def saved (result : FileResult) (code : Text) (files : Files) : FileResult :=
  (files.save result.output code (Text.begins "#!" code)).2.elim
    { result with action := some .written } fun f => result.fail (.output result.output (some f))

theorem step_differing (o : Options) (dryRun : Bool) (files : Files) (result : FileResult)
    (code : Text) :
    step o dryRun files (.differing result code) =
      (.finished (saved result code files),
        (files.save result.output code (Text.begins "#!" code)).1) := by
  rw [step, saved]
  cases files.save result.output code (Text.begins "#!" code) with
  | mk after failure => cases failure <;> rfl

theorem saved_of_saves {result : FileResult} {code : Text}
    (saves : files.Saves ⟨result.output, code, Text.begins "#!" code⟩) :
    saved result code files = { result with action := some .written } := by
  rw [Files.Saves] at saves
  rw [saved, saves]
  rfl

theorem step_files {job : Job} (saves : ∀ w ∈ job.write?, files.Saves w) :
    (step o dryRun files job).2 = job.write?.elim files files.apply := by
  cases job with
  | differing result code =>
    rw [step_differing]
    exact congrArg Prod.fst (saves _ rfl)
  | _ => rfl

theorem write?_of_isFinished {job : Job} (finished : job.isFinished = true) :
    job.write? = none := by
  cases job with
  | finished result => rfl
  | _ => exact Bool.noConfusion finished

/-- A step that writes is the last one. -/
theorem isFinished_step_of_write? {job : Job} (writes : job.write? ≠ none) :
    (step o dryRun files job).1.isFinished = true := by
  cases job with
  | differing result code =>
    rw [step_differing]
    rfl
  | _ => exact absurd rfl writes

theorem step_of_isFinished {job : Job} (finished : job.isFinished = true) :
    step o dryRun files job = (job, files) := by
  cases job with
  | finished result => rfl
  | _ => exact Bool.noConfusion finished

/-- Compiling sees the input only. -/
theorem compile_congr (same : after.look source.path = files.look source.path) :
    compile o source after = compile o source files := by
  have read : after.read source.path = files.read source.path := by
    have seen (files : Files) : files.read source.path = match files.look source.path with
        | .error e => .error (e.failure "open" source.path)
        | .ok none => .error (FileError.isDirectory.failure "read" source.path)
        | .ok (some content) => .ok content := by
      rw [Files.read, Files.look]
      cases files.stat source.path with
      | error => rfl
      | ok entry => cases entry <;> rfl
    rw [seen after, seen files, same]
  rw [compile, compile, read]

theorem compile_cases (o : Options) (source : Source) (files : Files) :
    (∃ result, compile o source files = .finished result ∧ result.action = some .failed ∧
      result.input = source.path ∧ result.output = o.outputPath source) ∨
    ∃ result code content, compile o source files = .compiled result code ∧
      result.output = o.outputPath source ∧ result.input = source.path ∧
      files.look source.path = .ok (some content) := by
  rw [compile]
  cases read : files.read source.path with
  | error f => exact .inl ⟨_, rfl, rfl, rfl, rfl⟩
  | ok script =>
    dsimp only
    cases Program.convert o.program script with
    | error f => exact .inl ⟨_, rfl, rfl, rfl, rfl⟩
    | ok compiled =>
      refine .inr ⟨_, _, script, rfl, rfl, rfl, ?_⟩
      rw [Files.read] at read
      rw [Files.look]
      cases stat : files.stat source.path with
      | error => simp [stat] at read
      | ok entry =>
        cases entry with
        | directory => simp [stat] at read
        | file content executable =>
          simp only [stat, Except.ok.injEq] at read
          rw [read]
          rfl

/-- What differs is written, or planned to be. -/
def differ (dryRun : Bool) (result : FileResult) (code : Text) : Job :=
  if dryRun then .finished { result with action := some .planned } else .differing result code

/-- Whether the code differs from what is seen at the path of the output. -/
def differs (code : Text) : Except FileError (Option Text) → Bool
  | .error .missing => true
  | .ok (some content) => content != code
  | _ => false

/-- What comes of a file whose output is not to be written, by what is seen at its path. -/
def keep (result : FileResult) : Except FileError (Option Text) → FileResult
  | .error e => result.fail (.output result.output (some (e.failure "open" result.output)))
  | .ok none => result.fail (.output result.output
      (some (FileError.isDirectory.failure "read" result.output)))
  | .ok (some _) => { result with action := some .unchanged }

/-- Comparing sees the output only. -/
theorem compare_eq (dryRun : Bool) (result : FileResult) (code : Text) (files : Files) :
    compare dryRun result code files =
      if differs code (files.look result.output) then differ dryRun result code
      else .finished (keep result (files.look result.output)) := by
  rw [compare, Files.look]
  cases files.stat result.output with
  | error e => cases e <;> rfl
  | ok entry =>
    cases entry with
    | directory entries => rfl
    | file content executable =>
      by_cases same : content = code
      · simp [same, Except.map, Entry.content?, differs, keep]
      · simp [same, Except.map, Entry.content?, differs, differ]

theorem compare_congr {result : FileResult} {code : Text}
    (same : after.look result.output = files.look result.output) :
    compare dryRun result code after = compare dryRun result code files := by
  rw [compare_eq, compare_eq, same]

/-- The work on a source after some steps that all see the same files. -/
def stage (o : Options) (dryRun : Bool) (files : Files) (source : Source) : Nat → Job
  | 0 => .waiting source
  | n + 1 => (step o dryRun files (stage o dryRun files source n)).1

theorem stage_succ (n : Nat) : stage o dryRun files source (n + 1) =
    (step o dryRun files (stage o dryRun files source n)).1 := rfl

theorem stage_one : stage o dryRun files source 1 = compile o source files := rfl

theorem stage_two_finished {result : FileResult}
    (compiled : compile o source files = .finished result) :
    stage o dryRun files source 2 = .finished result := by
  rw [stage, stage_one, compiled]
  rfl

theorem stage_two_compiled {result : FileResult} {code : Text}
    (compiled : compile o source files = .compiled result code) :
    stage o dryRun files source 2 = compare dryRun result code files := by
  rw [stage, stage_one, compiled]
  rfl

theorem compare_cases (dryRun : Bool) (result : FileResult) (code : Text) (files : Files) :
    (∃ final, compare dryRun result code files = .finished final) ∨
      dryRun = false ∧ compare dryRun result code files = .differing result code := by
  rw [compare_eq]
  split
  · cases dryRun with
    | true => exact .inl ⟨_, rfl⟩
    | false => exact .inr ⟨rfl, rfl⟩
  · exact .inl ⟨_, rfl⟩

/-- After two steps a job has come to its end, or it writes its output. -/
theorem stage_two_cases (o : Options) (dryRun : Bool) (files : Files) (source : Source) :
    (∃ result, stage o dryRun files source 2 = .finished result) ∨
      dryRun = false ∧ ∃ result code, stage o dryRun files source 2 = .differing result code ∧
        compile o source files = .compiled result code ∧ result.output = o.outputPath source := by
  rcases compile_cases o source files with ⟨result, compiled, -⟩ |
    ⟨result, code, _, compiled, output, -⟩
  · exact .inl ⟨result, stage_two_finished compiled⟩
  · rw [stage_two_compiled compiled]
    rcases compare_cases dryRun result code files with finished | ⟨wet, differing⟩
    · exact .inl finished
    · exact .inr ⟨wet, result, code, differing, compiled, output⟩

theorem write?_stage_one (o : Options) (dryRun : Bool) (files : Files) (source : Source) :
    (stage o dryRun files source 1).write? = none := by
  rw [stage_one]
  rcases compile_cases o source files with ⟨result, compiled, -⟩ | ⟨result, code, _, compiled, -⟩
  · rw [compiled]
    rfl
  · rw [compiled]
    rfl

theorem isFinished_stage_three (o : Options) (dryRun : Bool) (files : Files) (source : Source) :
    (stage o dryRun files source 3).isFinished = true := by
  rcases stage_two_cases o dryRun files source with ⟨result, two⟩ | ⟨-, result, code, two, -⟩
  · rw [stage, two]
    rfl
  · rw [stage, two]
    exact isFinished_step_of_write? (Option.some_ne_none _)

theorem isFinished_stage_add_three (o : Options) (dryRun : Bool) (files : Files) (source : Source)
    (n : Nat) : (stage o dryRun files source (n + 3)).isFinished = true := by
  induction n with
  | zero => exact isFinished_stage_three o dryRun files source
  | succ n ih => rwa [Nat.add_right_comm, stage_succ, step_of_isFinished ih]

theorem stage_of_isFinished {n : Nat}
    (finished : (stage o dryRun files source n).isFinished = true) :
    stage o dryRun files source n = stage o dryRun files source 3 := by
  have ahead (m : Nat) : stage o dryRun files source (n + m) = stage o dryRun files source n := by
    induction m with
    | zero => rfl
    | succ m ih => rw [← Nat.add_assoc, stage, ih, step_of_isFinished finished]
  have final (m : Nat) : stage o dryRun files source (3 + m) = stage o dryRun files source 3 := by
    induction m with
    | zero => rfl
    | succ m ih => rw [← Nat.add_assoc, stage, ih, step_of_isFinished (isFinished_stage_three ..)]
  rw [← ahead 3, Nat.add_comm, final]

end Job

/-- The file that the work on a source writes. -/
def Source.write? (o : Options) (dryRun : Bool) (files : Files) (s : Source) : Option Write :=
  (Job.stage o dryRun files s 2).write?

/-- The files after the work on some sources, each of which saw the files from before. -/
def afterAll (o : Options) (dryRun : Bool) (files : Files) (done : List Source) : Files :=
  files.applyAll (done.filterMap (Source.write? o dryRun files))

section
variable {o : Options} {dryRun : Bool} {files : Files} {sources done : List Source} {s : Source}

/-- The last step of the work on a source writes what the work writes. -/
theorem Job.write?_stage {n : Nat} (busy : (stage o dryRun files s n).isFinished = false)
    (ended : (stage o dryRun files s (n + 1)).isFinished = true) :
    (stage o dryRun files s n).write? = s.write? o dryRun files := by
  have second (finished : (stage o dryRun files s 2).isFinished = true) :
      s.write? o dryRun files = none := write?_of_isFinished finished
  match n with
  | 0 =>
    have two : stage o dryRun files s 2 = stage o dryRun files s 1 := by
      rw [stage_succ 1, step_of_isFinished ended]
    rw [second (two ▸ ended)]
    rfl
  | 1 => rw [second ended, write?_stage_one]
  | 2 => rfl
  | n + 3 => exact absurd (isFinished_stage_add_three o dryRun files s n) (by rw [busy]; decide)

theorem Job.step_stage_one (o : Options) (dryRun : Bool) (files : Files) (s : Source) :
    step o dryRun files (stage o dryRun files s 1) = (stage o dryRun files s 2, files) := by
  have silent : (step o dryRun files (stage o dryRun files s 1)).2 = files := by
    rw [step_files (by simp [write?_stage_one]), write?_stage_one]
    rfl
  exact Prod.ext rfl silent

/-- The whole work on a source alone, of which only the last step changes the files. -/
theorem Job.run_eq (o : Options) (dryRun : Bool) (s : Source) (files : Files) :
    run o dryRun s files =
      ((stage o dryRun files s 3).result, (step o dryRun files (stage o dryRun files s 2)).2) := by
  have zero : step o dryRun files (.waiting s) = (stage o dryRun files s 1, files) := rfl
  rw [run, zero]
  dsimp only
  rw [step_stage_one]
  rfl

/-- The whole work on a source whose output can be written. -/
theorem Job.run_of_saves (saves : ∀ w ∈ s.write? o dryRun files, files.Saves w) :
    run o dryRun s files =
      ((stage o dryRun files s 3).result, (s.write? o dryRun files).elim files files.apply) := by
  rw [run_eq, step_files saves, Source.write?]

theorem Source.write?_dryRun (o : Options) (files : Files) (s : Source) :
    s.write? o true files = none := by
  rcases Job.stage_two_cases o true files s with ⟨result, two⟩ | ⟨wet, -⟩
  · rw [write?, two]
    rfl
  · exact Bool.noConfusion wet

theorem afterAll_dryRun (o : Options) (files : Files) (done : List Source) :
    afterAll o true files done = files := by
  have none : done.filterMap (Source.write? o true files) = [] :=
    List.filterMap_eq_nil_iff.2 fun s _ => s.write?_dryRun o files
  rw [afterAll, none]
  rfl

theorem afterAll_append (done : List Source) (s : Source) :
    afterAll o dryRun files (done ++ [s]) = (s.write? o dryRun files).elim
      (afterAll o dryRun files done) (afterAll o dryRun files done).apply := by
  rw [afterAll, List.filterMap_append, Files.applyAll, List.foldl_append, List.filterMap_cons]
  cases s.write? o dryRun files <;> rfl

/-- What is written is the output of the source, whose input could be read. -/
theorem of_write? {w : Write} (writes : s.write? o dryRun files = some w) :
    dryRun = false ∧ ∃ result content, Job.compile o s files = .compiled result w.content ∧
      Job.compare false result w.content files = .differing result w.content ∧
      result.output = w.path ∧ w.path = o.outputPath s ∧
        files.look s.path = .ok (some content) := by
  rcases Job.stage_two_cases o dryRun files s with ⟨result, two⟩ |
    ⟨wet, result, code, two, compiled, output⟩
  · rw [Source.write?, two] at writes
    cases writes
  · rw [Source.write?, two] at writes
    cases writes
    subst wet
    rcases Job.compile_cases o s files with ⟨other, failed, -⟩ |
      ⟨other, _, content, same, _, _, seen⟩
    · rw [compiled] at failed
      cases failed
    · rw [compiled] at same
      cases same
      rw [Job.stage_two_compiled compiled] at two
      exact ⟨rfl, result, content, compiled, two, rfl, output, seen⟩

/-- A run that is not cancelled works on its first source. -/
theorem convertAll_cons {cancelAt : Option Nat} {place : Nat}
    (going : cancelAt.any (· ≤ place) = false)
    (s : Source) (rest : List Source) (files : Files) :
    convertAll o dryRun cancelAt place (s :: rest) files =
      ((Job.run o dryRun s files).1 ::
          (convertAll o dryRun cancelAt (place + 1) rest (Job.run o dryRun s files).2).1,
        (convertAll o dryRun cancelAt (place + 1) rest (Job.run o dryRun s files).2).2) := by
  rw [convertAll, going]
  rfl

/-- Sources whose outputs are different files, no inputs, and can be written. -/
structure Separate (o : Options) (files : Files) (sources : List Source) : Prop where
  /-- The outputs are different files, however their paths are spelled. -/
  outputs : (sources.map fun s => files.spelled (o.outputPath s)).Nodup
  /-- No output is an input. -/
  inputs : ∀ s ∈ sources, ∀ t ∈ sources, files.spelled (o.outputPath s) ≠ files.spelled t.path
  /-- Each output that is to be written can be written, also after any other one. -/
  writes : ∀ s ∈ sources, ∀ w ∈ s.write? o false files, files.canWrite w.path = true ∧
    ∀ t ∈ sources, t ≠ s → ∀ v ∈ t.write? o false files, (files.apply v).canWrite w.path = true

/-- Sources of which none is seen to change by the work on another one. -/
structure Independent (o : Options) (files : Files) (sources : List Source) : Prop
    extends Separate o files sources where
  /-- An input that is missing lies apart from all outputs; its path leads from a directory that is
  there through names. -/
  missing : ∀ s ∈ sources, files.look s.path = .error .missing →
    (∃ base names, files.Leads s.path base names) ∧
      ∀ t ∈ sources, Entry.Apart (files.spelled s.path) (files.spelled (o.outputPath t))

theorem isFree_of_canWrite {path : Text} (writable : files.canWrite path = true) :
    Entry.isFree (files.spelled path) (some files.root) = true := by
  simp only [Files.canWrite, Bool.and_eq_true] at writable
  exact writable.2

/-- What is to be written differs from the output that is there, or there is none. -/
theorem look_of_write? {w : Write} (writes : s.write? o dryRun files = some w) :
    files.look w.path = .error .missing ∨ ∃ content, files.look w.path = .ok (some content) := by
  obtain ⟨-, result, -, -, compared, output, -⟩ := of_write? writes
  rw [Job.compare_eq, output] at compared
  split at compared
  · next differs =>
    rw [Job.differs.eq_def] at differs
    split at differs
    · next missing => exact .inl missing
    · next content seen => exact .inr ⟨content, seen⟩
    · cases differs
  · cases compared

/-- Outputs that can be written, none of them at or below another one. -/
theorem Separate.of_apart (once : sources.Nodup)
    (apart : ∀ s ∈ sources, ∀ t ∈ sources, s ≠ t →
      Entry.Apart (files.spelled (o.outputPath s)) (files.spelled (o.outputPath t)))
    (inputs : ∀ s ∈ sources, ∀ t ∈ sources, files.spelled (o.outputPath s) ≠ files.spelled t.path)
    (writable : ∀ s ∈ sources, files.canWrite (o.outputPath s) = true) :
    Separate o files sources := by
  have path {s : Source} {w : Write} (writes : w ∈ s.write? o false files) :
      w.path = o.outputPath s := by
    obtain ⟨-, -, -, -, -, -, path, -⟩ := of_write? writes
    exact path
  constructor
  · apply List.Nodup.map_on _ once
    intro s first t second same
    by_contra differ
    exact (apart s first t second differ).1 (same ▸ List.prefix_refl _)
  · exact inputs
  · intro s member w writes
    rw [path writes]
    refine ⟨writable s member, ?_⟩
    intro t listed differ v others
    apply Files.canWrite_apply (writable s member)
    · rw [path others]
      exact writable t listed
    · rw [path others]
      exact apart s member t listed differ.symm

theorem Separate.sublist {some : List Source} (separate : Separate o files sources)
    (within : some.Sublist sources) : Separate o files some := by
  constructor
  · exact separate.outputs.sublist (within.map _)
  · intro s member t listed
    exact separate.inputs s (within.subset member) t (within.subset listed)
  · intro s member w writes
    obtain ⟨alone, after⟩ := separate.writes s (within.subset member) w writes
    exact ⟨alone, fun t listed => after t (within.subset listed)⟩

namespace Independent
variable (independent : Independent o files sources)
include independent

theorem nodup : sources.Nodup := independent.outputs.of_map

theorem output_ne {t : Source} (first : s ∈ sources) (second : t ∈ sources) (differ : s ≠ t) :
    files.spelled (o.outputPath s) ≠ files.spelled (o.outputPath t) := fun same =>
  differ (List.inj_on_of_nodup_map independent.outputs first second same)

/-- An output below another one could not be written after it, nor one above. -/
theorem not_below {t : Source} {v w : Write} (first : s ∈ sources) (second : t ∈ sources)
    (differ : s ≠ t) (mine : s.write? o false files = some w)
    (theirs : t.write? o false files = some v) :
    ¬files.spelled w.path <+: files.spelled v.path := by
  intro within
  obtain ⟨-, -, -, -, -, -, myPath, -⟩ := of_write? mine
  obtain ⟨-, -, -, -, -, -, theirPath, -⟩ := of_write? theirs
  have other : files.spelled w.path ≠ files.spelled v.path := by
    rw [myPath, theirPath]
    exact independent.output_ne first second differ
  have free := isFree_of_canWrite (independent.writes t second v theirs).1
  have later := isFree_of_canWrite
    ((independent.writes s first w mine).2 t second differ.symm v theirs)
  obtain ⟨entries, directory⟩ : ∃ entries, (files.apply v).root.find? (files.spelled w.path) =
      some (.directory entries) := Entry.find?_put_above free within other
  exact (Entry.isFree_iff.1 later).2 entries directory

theorem apart {t : Source} {v w : Write} (first : s ∈ sources) (second : t ∈ sources)
    (differ : s ≠ t) (mine : s.write? o false files = some w)
    (theirs : t.write? o false files = some v) :
    Entry.Apart (files.spelled w.path) (files.spelled v.path) :=
  ⟨independent.not_below first second differ mine theirs,
    independent.not_below second first differ.symm theirs mine⟩

theorem grown (within : done ⊆ sources) (once : done.Nodup) :
    Files.Grown files (afterAll o dryRun files done)
      (done.filterMap (Source.write? o dryRun files)) := by
  cases dryRun with
  | true =>
    have none : done.filterMap (Source.write? o true files) = [] :=
      List.filterMap_eq_nil_iff.2 fun s _ => s.write?_dryRun o files
    rw [afterAll, none]
    exact .refl files
  | false =>
    apply Files.grown_applyAll
    · intro w member
      obtain ⟨s, listed, writes⟩ := List.mem_filterMap.1 member
      exact isFree_of_canWrite (independent.writes s (within listed) w writes).1
    · rw [List.pairwise_filterMap]
      refine once.imp_of_mem ?_
      intro s t first second differ w mine v theirs
      exact independent.apart (within first) (within second) differ mine theirs

/-- The order of the work does not matter. -/
theorem afterAll_perm (order : done.Perm sources) :
    afterAll o dryRun files done = afterAll o dryRun files sources := by
  cases dryRun with
  | true => rw [afterAll_dryRun, afterAll_dryRun]
  | false =>
    apply Files.applyAll_perm (order.filterMap _)
    intro v first w second differ
    obtain ⟨s, mine, writes⟩ := List.mem_filterMap.1 first
    obtain ⟨t, theirs, others⟩ := List.mem_filterMap.1 second
    have other : s ≠ t := by
      rintro rfl
      exact differ (Option.some.inj (writes.symm.trans others))
    exact independent.apart (order.subset mine) (order.subset theirs) other writes others

/-- The work on others leaves the input as it was. -/
theorem look_input (within : done ⊆ sources) (once : done.Nodup) (member : s ∈ sources) :
    (afterAll o dryRun files done).look s.path = files.look s.path := by
  have grown : Files.Grown files (afterAll o dryRun files done) _ := independent.grown within once
  have path {w : Write} (written : w ∈ done.filterMap (Source.write? o dryRun files)) :
      ∃ t ∈ sources, w.path = o.outputPath t := by
    obtain ⟨t, listed, writes⟩ := List.mem_filterMap.1 written
    obtain ⟨-, -, -, -, -, -, path, -⟩ := of_write? writes
    exact ⟨t, within listed, path⟩
  by_cases missing : files.look s.path = .error .missing
  · obtain ⟨⟨base, names, leads⟩, apart⟩ := independent.missing s member missing
    rw [missing]
    apply leads.look_missing grown _ missing
    intro w written
    obtain ⟨t, listed, path⟩ := path written
    exact path ▸ apart t listed
  · apply grown.look missing
    intro w written same
    obtain ⟨t, listed, path⟩ := path written
    rw [path] at same
    exact independent.inputs t listed s member same.symm

/-- The work on others leaves the output as it was. -/
theorem look_output (within : done ⊆ sources) (once : done.Nodup) (member : s ∈ sources)
    (fresh : s ∉ done) {result : FileResult} {code : Text}
    (compiled : Job.compile o s files = .compiled result code) :
    (afterAll o dryRun files done).look (o.outputPath s) = files.look (o.outputPath s) := by
  cases dryRun with
  | true => rw [afterAll_dryRun]
  | false =>
    have grown : Files.Grown files (afterAll o false files done) _ := independent.grown within once
    rcases Job.compile_cases o s files with ⟨_, failed, -⟩ | ⟨_, _, content, same, output, -, seen⟩
    · rw [compiled] at failed
      cases failed
    rw [compiled] at same
    cases same
    by_cases missing : files.look (o.outputPath s) = .error .missing
    · have writes : s.write? o false files = some
          ⟨o.outputPath s, code, Text.begins "#!" code⟩ := by
        rw [Source.write?, Job.stage_two_compiled compiled, Job.compare_eq, output, missing]
        rw [← output]
        rfl
      have writable := (independent.writes s member _ writes).1
      obtain ⟨base, names, leads⟩ := leads_outputPath seen writable missing
      rw [missing]
      apply leads.look_missing grown _ missing
      intro v written
      obtain ⟨t, listed, theirs⟩ := List.mem_filterMap.1 written
      have differ : s ≠ t := fun same => fresh (same ▸ listed)
      exact independent.apart member (within listed) differ writes theirs
    · apply grown.look missing
      intro v written same
      obtain ⟨t, listed, theirs⟩ := List.mem_filterMap.1 written
      obtain ⟨-, -, -, -, -, -, path, -⟩ := of_write? theirs
      rw [path] at same
      have differ : s ≠ t := fun same => fresh (same ▸ listed)
      exact independent.output_ne member (within listed) differ same

/-- After the work on others an output can be written. -/
theorem saves (within : done ⊆ sources) (once : done.Nodup) (member : s ∈ sources)
    (fresh : s ∉ done) :
    ∀ w ∈ s.write? o dryRun files, (afterAll o dryRun files done).Saves w := by
  intro w writes
  obtain ⟨wet, result, content, compiled, -, -, path, seen⟩ := of_write? writes
  subst wet
  have same : (afterAll o false files done).look _ = _ :=
    independent.look_output within once member fresh compiled
  rcases look_of_write? writes with missing | ⟨content, there⟩
  · have grown : Files.Grown files (afterAll o false files done) _ := independent.grown within once
    have writable := (independent.writes s member w writes).1
    have apart : ∀ v ∈ done.filterMap (Source.write? o false files),
        Entry.Apart (files.spelled w.path) (files.spelled v.path) := by
      intro v written
      obtain ⟨t, listed, theirs⟩ := List.mem_filterMap.1 written
      have differ : s ≠ t := fun same => fresh (same ▸ listed)
      exact independent.apart member (within listed) differ writes theirs
    rw [path] at writable missing
    obtain ⟨base, names, leads⟩ := leads_outputPath seen writable missing
    rw [← path] at leads writable missing
    have free := isFree_of_canWrite writable
    apply Files.saves_of_leads (leads.grown grown)
    · rw [grown.spelled, grown.beside _ fun v written => (apart v written).1]
      rw [leads.look] at missing
      cases found : files.root.find? (files.spelled w.path) with
      | none => rfl
      | some entry => simp [found] at missing
    · rw [grown.spelled]
      exact grown.isFree apart free
  · rw [path, ← same, ← path] at there
    exact Files.saves_of_file there

theorem saves_alone (member : s ∈ sources) : ∀ w ∈ s.write? o dryRun files, files.Saves w :=
  independent.saves (List.nil_subset _) .nil member List.not_mem_nil

/-- A job does, after the work on others, what it does alone. -/
theorem step_stage (within : done ⊆ sources) (once : done.Nodup) (member : s ∈ sources)
    (fresh : s ∉ done) (n : Nat) :
    (Job.step o dryRun (afterAll o dryRun files done) (Job.stage o dryRun files s n)).1 =
      Job.stage o dryRun files s (n + 1) := by
  match n with
  | 0 => exact Job.compile_congr (independent.look_input within once member)
  | 1 =>
    rw [Job.stage_one]
    rcases Job.compile_cases o s files with ⟨result, compiled, -⟩ |
      ⟨result, code, _, compiled, output, -⟩
    · rw [compiled, Job.stage_two_finished compiled]
      rfl
    · rw [compiled, Job.stage_two_compiled compiled]
      apply Job.compare_congr
      rw [output]
      exact independent.look_output within once member fresh compiled
  | 2 =>
    rcases Job.stage_two_cases o dryRun files s with ⟨result, two⟩ | ⟨-, result, code, two, -⟩
    · rw [Job.stage_succ 2, two]
      rfl
    · have writes : s.write? o dryRun files =
          some ⟨result.output, code, Text.begins "#!" code⟩ := by
        rw [Source.write?, two]
        rfl
      have first := independent.saves_alone member _ writes
      have later := independent.saves within once member fresh _ writes
      rw [Job.stage_succ 2, two, Job.step_differing, Job.step_differing, Job.saved_of_saves later,
        Job.saved_of_saves first]
  | n + 3 =>
    have finished := Job.isFinished_stage_add_three o dryRun files s n
    rw [Job.stage_succ (n + 3), Job.step_of_isFinished finished, Job.step_of_isFinished finished]

theorem step_eq (dryRun : Bool) (within : done ⊆ sources) (once : done.Nodup)
    (member : s ∈ sources) (fresh : s ∉ done) (n : Nat) :
    Job.step o dryRun (afterAll o dryRun files done) (Job.stage o dryRun files s n) =
      (Job.stage o dryRun files s (n + 1), (Job.stage o dryRun files s n).write?.elim
        (afterAll o dryRun files done) (afterAll o dryRun files done).apply) := by
  have saves : ∀ w ∈ (Job.stage o dryRun files s n).write?,
      (afterAll o dryRun files done).Saves w := by
    cases busy : (Job.stage o dryRun files s n).isFinished with
    | true => simp [Job.write?_of_isFinished busy]
    | false =>
      cases last : (Job.stage o dryRun files s (n + 1)).isFinished with
      | true =>
        rw [Job.write?_stage busy last]
        exact independent.saves within once member fresh
      | false =>
        intro w writes
        have ended : (Job.stage o dryRun files s (n + 1)).isFinished = true :=
          Job.isFinished_step_of_write? (Option.ne_none_iff_exists'.2 ⟨w, writes⟩)
        rw [last] at ended
        cases ended
  rw [← independent.step_stage within once member fresh, ← Job.step_files saves]

theorem stage_after (within : done ⊆ sources) (once : done.Nodup) (member : s ∈ sources)
    (fresh : s ∉ done) (n : Nat) :
    Job.stage o dryRun (afterAll o dryRun files done) s n = Job.stage o dryRun files s n := by
  induction n with
  | zero => rfl
  | succ n ih => rw [Job.stage, ih, independent.step_stage within once member fresh]

/-- The whole work on a source, after that on others. -/
theorem run (within : done ⊆ sources) (once : done.Nodup) (member : s ∈ sources)
    (fresh : s ∉ done) :
    Job.run o dryRun s (afterAll o dryRun files done) =
      ((Job.stage o dryRun files s 3).result, afterAll o dryRun files (done ++ [s])) := by
  have same : s.write? o dryRun (afterAll o dryRun files done) = s.write? o dryRun files := by
    rw [Source.write?, independent.stage_after within once member fresh, Source.write?]
  rw [Job.run_of_saves (by rw [same]; exact independent.saves within once member fresh), same,
    independent.stage_after within once member fresh, afterAll_append]

/-- Converting sources after others gives the result of each of them alone. -/
theorem convertAll_after {rest : List Source} (all : done ++ rest = sources) (place : Nat) :
    convertAll o dryRun none place rest (afterAll o dryRun files done) =
      (rest.map fun s => (Job.stage o dryRun files s 3).result,
        afterAll o dryRun files sources) := by
  induction rest generalizing done place with
  | nil =>
    rw [List.append_nil] at all
    rw [all]
    rfl
  | cons s rest ih =>
    have once := independent.nodup
    rw [← all] at once
    obtain ⟨before, -, apart⟩ := List.nodup_append.1 once
    have within : done ⊆ sources := by
      rw [← all]
      exact List.subset_append_left ..
    have member : s ∈ sources := by simp [← all]
    have fresh : s ∉ done := fun inside => apart s inside s (by simp) rfl
    rw [convertAll_cons rfl, independent.run within before member fresh,
      ih (by rw [← all, List.append_assoc, List.singleton_append])]
    rfl

theorem convertAll_eq : convertAll o dryRun none 0 sources files =
    (sources.map fun s => (Job.stage o dryRun files s 3).result, afterAll o dryRun files sources) :=
  independent.convertAll_after (List.nil_append sources) 0

theorem sublist {some : List Source} (within : some.Sublist sources) :
    Independent o files some := by
  refine ⟨independent.toSeparate.sublist within, ?_⟩
  intro s member missing
  obtain ⟨leads, apart⟩ := independent.missing s (within.subset member) missing
  exact ⟨leads, fun t listed => apart t (within.subset listed)⟩

end Independent

/-- A file that failed is not to be written, if it can be. -/
theorem write?_of_failed (saves : ∀ w ∈ s.write? o dryRun files, files.Saves w)
    (failed : (Job.stage o dryRun files s 3).result.action = some .failed) :
    s.write? o dryRun files = none := by
  rcases Job.stage_two_cases o dryRun files s with ⟨result, two⟩ | ⟨-, result, code, two, -⟩
  · rw [Source.write?, two]
    rfl
  · rw [Source.write?, two] at saves
    rw [Job.stage_succ 2, two, Job.step_differing, Job.saved_of_saves (saves _ rfl)] at failed
    cases failed

end

end Batch

end ShellToDeno
