import ShellToDeno.Proofs.Batch.Jobs
import ShellToDeno.Proofs.Batch.Plans

/-!
# Plans and what comes of them

A dry run does what a run does up to the point where something would be written. So the plan of a
batch tells what converting reports; and after it has been carried out there is nothing left to do.
-/
namespace ShellToDeno.Batch

namespace FileResult

/-- A result after what was planned has been done. -/
def carriedOut (r : FileResult) : FileResult :=
  { r with action := if r.action = some .planned then some .written else r.action }

/-- The result of doing all again: what did not fail is as it should be. -/
def settled (r : FileResult) : FileResult :=
  { r with action := if r.action = some .failed then r.action else some .unchanged }

theorem carriedOut_of_ne {r : FileResult} (done : r.action ≠ some .planned) : r.carriedOut = r := by
  simp [carriedOut, done]

theorem settled_of_mem {r : FileResult} (done : r.action ∈ [some .unchanged, some .failed]) :
    r.settled = r := by
  obtain ⟨_, _, action, _, _, _⟩ := r
  rcases List.mem_pair.1 done with rfl | rfl <;> rfl

end FileResult

namespace Job
variable {o : Options} {dryRun : Bool} {files : Files} {s : Source} {result : FileResult}
    {code : Text}

theorem result_of_finished (compiled : compile o s files = .finished result) :
    (stage o dryRun files s 3).result = result := by
  rw [stage_succ 2, stage_two_finished compiled]
  rfl

/-- What came of the work on a source, by what was seen at the path of its output. -/
theorem result_of_compiled (compiled : compile o s files = .compiled result code) :
    (stage o dryRun files s 3).result = if differs code (files.look result.output) then
      if dryRun then { result with action := some .planned } else saved result code files
      else keep result (files.look result.output) := by
  rw [stage_succ 2, stage_two_compiled compiled, compare_eq]
  split
  · cases dryRun with
    | true => rfl
    | false => exact congrArg (Job.result ·.1) (step_differing o false files result code)
  · rfl

theorem saved_fields (result : FileResult) (code : Text) (files : Files) :
    (saved result code files).action ∈ [some .written, some .failed] ∧
      (saved result code files).input = result.input ∧
      (saved result code files).output = result.output := by
  rw [saved]
  cases (files.save result.output code (Text.begins "#!" code)).2 <;> simp [FileResult.fail]

theorem keep_fields (result : FileResult) (seen : Except FileError (Option Text)) :
    (keep result seen).action ∈ [some .unchanged, some .failed] ∧
      (keep result seen).input = result.input ∧ (keep result seen).output = result.output := by
  cases seen with
  | error e => simp [keep, FileResult.fail]
  | ok found => cases found <;> simp [keep, FileResult.fail]

theorem write?_of_finished (compiled : compile o s files = .finished result) :
    s.write? o dryRun files = none := by
  rw [Source.write?, stage_two_finished compiled]
  rfl

theorem write?_of_compiled (compiled : compile o s files = .compiled result code) :
    s.write? o dryRun files = if differs code (files.look result.output) && !dryRun then
      some ⟨result.output, code, Text.begins "#!" code⟩ else none := by
  rw [Source.write?, stage_two_compiled compiled, compare_eq]
  cases differs code (files.look result.output) with
  | false => rfl
  | true => cases dryRun <;> rfl

/-- A dry run tells the result of a run whose output can be written. -/
theorem result_carriedOut (saves : ∀ w ∈ s.write? o false files, files.Saves w) :
    (stage o false files s 3).result = (stage o true files s 3).result.carriedOut := by
  rcases compile_cases o s files with ⟨result, compiled, failed, -⟩ | ⟨result, code, _, compiled, -⟩
  · rw [result_of_finished compiled, result_of_finished compiled, FileResult.carriedOut_of_ne]
    rw [failed]
    decide
  · rw [result_of_compiled compiled, result_of_compiled compiled]
    split
    · next differing =>
      rw [write?_of_compiled compiled, differing] at saves
      exact saved_of_saves (saves _ rfl)
    · rw [FileResult.carriedOut_of_ne]
      obtain ⟨action, -⟩ := keep_fields result (files.look result.output)
      rcases List.mem_pair.1 action with action | action <;> simp [action]

/-- What the result of a run tells of its source. -/
theorem result_fields (o : Options) (dryRun : Bool) (files : Files) (s : Source) :
    (stage o dryRun files s 3).result.action ∈
        [some (if dryRun then .planned else .written), some .unchanged, some .failed] ∧
      (stage o dryRun files s 3).result.input = s.path ∧
      (stage o dryRun files s 3).result.output = o.outputPath s := by
  rcases compile_cases o s files with ⟨result, compiled, failed, input, output⟩ |
    ⟨result, code, _, compiled, output, input, -⟩
  · rw [result_of_finished compiled, failed]
    exact ⟨by simp, input, output⟩
  · rw [result_of_compiled compiled]
    by_cases differing : differs code (files.look result.output) = true
    · rw [if_pos differing]
      cases dryRun with
      | true => exact ⟨List.mem_cons_self, input, output⟩
      | false =>
        obtain ⟨action, kept, place⟩ := saved_fields result code files
        refine ⟨?_, kept.trans input, place.trans output⟩
        rcases List.mem_pair.1 action with action | action <;> simp [action]
    · rw [if_neg differing]
      obtain ⟨action, kept, place⟩ := keep_fields result (files.look result.output)
      exact ⟨List.mem_cons_of_mem _ action, kept.trans input, place.trans output⟩

end Job

variable {o : Options} {files : Files} {sources : List Source} {s : Source}

/-- A source that writes nothing can be left out. -/
theorem afterAll_of_silent {before after : List Source} {dryRun : Bool}
    (silent : s.write? o dryRun files = none) :
    afterAll o dryRun files (before ++ s :: after) = afterAll o dryRun files (before ++ after) := by
  simp [afterAll, silent]

namespace Independent
variable (independent : Independent o files sources) (member : s ∈ sources)
include independent member

/-- After the work on all sources the output of each one is there. -/
theorem look_output_afterAll {result : FileResult} {code : Text}
    (compiled : Job.compile o s files = .compiled result code) :
    (afterAll o false files sources).look result.output =
      if Job.differs code (files.look result.output) then .ok (some code)
      else files.look result.output := by
  have grown : Files.Grown files (afterAll o false files sources) _ :=
    independent.grown (List.Subset.refl sources) independent.nodup
  have write : s.write? o false files = _ := Job.write?_of_compiled compiled
  rcases Job.compile_cases o s files with ⟨_, failed, -⟩ | ⟨_, _, content, same, output, -, seen⟩
  · rw [compiled] at failed
    cases failed
  rw [compiled] at same
  cases same
  by_cases differing : Job.differs code (files.look result.output) = true
  · rw [differing] at write
    rw [if_pos differing]
    have listed := List.mem_filterMap.2 ⟨s, member, write⟩
    cases there : files.look result.output with
    | ok found => exact grown.look_anew listed there
    | error e =>
      cases e with
      | missing =>
        have writable := (independent.writes s member _ write).1
        rw [output] at there
        dsimp only at writable
        rw [output] at writable
        obtain ⟨base, names, leads⟩ := leads_outputPath seen writable there
        rw [← output] at leads
        exact leads.look_anew grown listed rfl
      | _ =>
        rw [there] at differing
        cases differing
  · rw [if_neg differing]
    obtain ⟨before, after, rfl⟩ := List.append_of_mem member
    have silent : s.write? o false files = none := by
      rw [write, Bool.eq_false_iff.2 differing]
      rfl
    have once := independent.nodup
    rw [List.nodup_middle, List.nodup_cons] at once
    have within : before ++ after ⊆ before ++ s :: after :=
      ((List.sublist_cons_self s after).append_left before).subset
    rw [afterAll_of_silent silent, output]
    exact independent.look_output within once.2 member once.1 compiled

/-- After the work on all sources no output differs from what it should be. -/
theorem not_differs_afterAll {result : FileResult} {code : Text}
    (compiled : Job.compile o s files = .compiled result code) :
    Job.differs code ((afterAll o false files sources).look result.output) = false := by
  rw [independent.look_output_afterAll member compiled]
  split
  · simp [Job.differs]
  · next same => exact Bool.eq_false_iff.2 same

/-- The work on a source after the work on all of them. -/
theorem run_again (dryRun : Bool) :
    Job.run o dryRun s (afterAll o false files sources) =
      ((Job.stage o false files s 3).result.settled, afterAll o false files sources) := by
  have same : Job.compile o s (afterAll o false files sources) = Job.compile o s files :=
    Job.compile_congr (independent.look_input (List.Subset.refl sources) independent.nodup member)
  rcases Job.compile_cases o s files with ⟨result, compiled, failed, -⟩ |
    ⟨result, code, _, compiled, -⟩
  · have again := same.trans compiled
    have silent : s.write? o dryRun _ = none := Job.write?_of_finished again
    rw [Job.run_of_saves (by simp [silent]), silent, Job.result_of_finished compiled,
      Job.result_of_finished again, FileResult.settled_of_mem (by simp [failed])]
    rfl
  · have again := same.trans compiled
    have equal := independent.not_differs_afterAll member compiled
    have silent : s.write? o dryRun (afterAll o false files sources) = none := by
      rw [Job.write?_of_compiled again, equal]
      rfl
    rw [Job.run_of_saves (by simp [silent]), silent, Job.result_of_compiled compiled,
      Job.result_of_compiled again, equal, independent.look_output_afterAll member compiled]
    by_cases differing : Job.differs code (files.look result.output) = true
    · have writes : s.write? o false files = some ⟨result.output, code, Text.begins "#!" code⟩ := by
        rw [Job.write?_of_compiled compiled, differing]
        rfl
      have saves := independent.saves_alone member _ writes
      simp only [differing, if_true, Bool.false_eq_true, if_false, Job.saved_of_saves saves]
      rfl
    · obtain ⟨action, -⟩ := Job.keep_fields result (files.look result.output)
      simp [differing, FileResult.settled_of_mem action]

end Independent

/-- Work that leaves the files as they are can be done on one source after the other. -/
theorem convertAll_of_still {dryRun : Bool} {result : Source → FileResult} (place : Nat)
    (still : ∀ s ∈ sources, Job.run o dryRun s files = (result s, files)) :
    convertAll o dryRun none place sources files = (sources.map result, files) := by
  induction sources generalizing place with
  | nil => rfl
  | cons s rest ih =>
    rw [convertAll_cons rfl, still s List.mem_cons_self,
      ih (place + 1) fun t member => still t (List.mem_cons_of_mem _ member)]
    rfl

/-- What a result tells as the step of a plan. -/
theorem FileResult.step_kind {r : FileResult}
    (action : r.action ∈ [some .written, some .unchanged, some .failed]) :
    (r.step.kind = .convert ↔ r.action = some .written) ∧
      (r.step.kind = .unchanged ↔ r.action = some .unchanged) ∧
      (r.step.kind = .failed ↔ r.action = some .failed) := by
  simp only [List.mem_cons, List.not_mem_nil, or_false] at action
  rcases action with action | action | action <;> simp [step, action]

theorem FileResult.step_carriedOut (r : FileResult) : r.carriedOut.step = r.step := by
  obtain ⟨_, _, action, _, _, _⟩ := r
  cases action with
  | none => rfl
  | some action => cases action <;> rfl

/-- A plan that tells what a conversion reported. -/
structure Tells (plan : Plan) (report : Report) : Prop where
  /-- Each file stands once under its directory. -/
  steps : plan.steps = Plan.grouped (report.results.map FileResult.step)
  /-- A step tells the action, the paths, the markers and the features of its file. -/
  kinds : ∀ r ∈ report.results, ((r.step.kind = .convert ↔ r.action = some .written) ∧
      (r.step.kind = .unchanged ↔ r.action = some .unchanged) ∧
      (r.step.kind = .failed ↔ r.action = some .failed)) ∧
    r.step.input = r.input ∧ r.step.output = r.output ∧ r.step.markers = r.markers ∧
    r.step.features = r.features.names
  counts : plan.summary.convert = report.count .written ∧
    plan.summary.unchanged = report.count .unchanged ∧ plan.summary.failed = report.count .failed

theorem Report.tells {planned converted : Report}
    (same : converted.results = planned.results.map FileResult.carriedOut)
    (actions : ∀ r ∈ converted.results, r.action ∈ [some .written, some .unchanged, some .failed]) :
    Tells planned.plan converted := by
  have steps : planned.results.map FileResult.step = converted.results.map FileResult.step := by
    rw [same, List.map_map]
    exact List.map_congr_left fun r _ => r.step_carriedOut.symm
  have count {kind : StepKind} {action : Action} (isFile : kind ∈ Summary.fileKinds)
      (means : ∀ r ∈ converted.results, r.step.kind = kind ↔ r.action = some action) :
      planned.plan.summary.of kind = converted.count action := by
    have same : planned.results.countP (·.step.kind = kind) =
        (planned.results.map FileResult.step).countP (·.kind = kind) := by
      rw [List.countP_map]
      rfl
    rw [of_summary_plan _ isFile, same, steps, List.countP_map, Report.count,
      ← List.countP_eq_length_filter]
    apply List.countP_congr
    intro r member
    simpa using means r member
  constructor
  · rw [plan_eq, steps]
  · intro r member
    exact ⟨FileResult.step_kind (actions r member), rfl, rfl, rfl, rfl⟩
  · have each (r : FileResult) (member : r ∈ converted.results) :=
      FileResult.step_kind (actions r member)
    have convert : planned.plan.summary.of .convert = _ :=
      count (by decide) fun r member => (each r member).1
    have unchanged : planned.plan.summary.of .unchanged = _ :=
      count (by decide) fun r member => (each r member).2.1
    have failed : planned.plan.summary.of .failed = _ :=
      count (by decide) fun r member => (each r member).2.2
    exact ⟨convert, unchanged, failed⟩

/-- For the sources that some arguments stand for, where outputs are different files, no inputs, and
can be written: a dry run leaves the files as they are and tells for each source what converting
reports, and so does its plan. After converting, both converting and planning the same sources
report all that did not fail as unchanged, and leave the files as they are. -/
theorem plan_predicts_conversion (o : Options) {files : Files} (proper : files.root.Proper)
    (paths : List Text) (separate : Separate o files (expand o files paths).sources) :
    (run o true none paths files).files = files ∧
    (run o true none paths files).report.results.map (fun r => (r.input, r.output)) =
      (expand o files paths).sources.map (fun s => (s.path, o.outputPath s)) ∧
    (∀ r ∈ (run o true none paths files).report.results,
      r.action ∈ [some .planned, some .unchanged, some .failed]) ∧
    (run o false none paths files).report.results =
      (run o true none paths files).report.results.map FileResult.carriedOut ∧
    (run o false none paths files).failures = (run o true none paths files).failures ∧
    Tells (run o true none paths files).report.plan (run o false none paths files).report ∧
    ∀ dryRun, convertAll o dryRun none 0 (expand o files paths).sources
      (run o false none paths files).files =
      ((run o false none paths files).report.results.map FileResult.settled,
        (run o false none paths files).files) := by
  have independent : Independent o files (expand o files paths).sources := by
    refine ⟨separate, ?_⟩
    intro s member missing
    obtain ⟨content, executable, seen⟩ := seen_of_mem_expand proper member
    rw [Files.look, seen] at missing
    cases missing
  have results (dryRun : Bool) : (run o dryRun none paths files).report.results =
      (expand o files paths).sources.map fun s => (Job.stage o dryRun files s 3).result := by
    rw [run, independent.convertAll_eq]
  have after (dryRun : Bool) : (run o dryRun none paths files).files =
      afterAll o dryRun files (expand o files paths).sources := by
    rw [run, independent.convertAll_eq]
  have carried : (run o false none paths files).report.results =
      (run o true none paths files).report.results.map FileResult.carriedOut := by
    rw [results, results, List.map_map]
    exact List.map_congr_left fun s member => Job.result_carriedOut (independent.saves_alone member)
  refine ⟨?_, ?_, ?_, carried, ?_, ?_, ?_⟩
  · rw [after, afterAll_dryRun]
  · rw [results, List.map_map]
    apply List.map_congr_left
    intro s _
    obtain ⟨-, input, output⟩ := Job.result_fields o true files s
    exact Prod.ext input output
  · intro r member
    rw [results] at member
    obtain ⟨s, -, rfl⟩ := List.mem_map.1 member
    exact (Job.result_fields o true files s).1
  · have failures (dryRun : Bool) : (run o dryRun none paths files).failures =
        (expand o files paths).failures ++
          (run o dryRun none paths files).report.results.filterMap FileResult.failure := rfl
    rw [failures, failures, carried, List.filterMap_map]
    rfl
  · apply Report.tells carried
    intro r member
    rw [results] at member
    obtain ⟨s, -, rfl⟩ := List.mem_map.1 member
    exact (Job.result_fields o false files s).1
  · intro dryRun
    rw [after, results, List.map_map]
    exact convertAll_of_still 0 fun s member => independent.run_again member dryRun

/-- Three scripts in two directories, planned, converted and converted once more. -/
theorem plan_predicts_conversion_scattered :
    (run ⟨.standard, [], false, []⟩ true none ["s", "u/a.sh"] scattered).files = scattered ∧
    ((run ⟨.standard, [], false, []⟩ true none ["s", "u/a.sh"] scattered).report.results.map
      fun r => (r.input, r.output)) =
        ([("s/a.sh", "s/a.js"), ("s/ci/a.sh", "s/ci/a.js"), ("u/a.sh", "u/a.js")] :
          List (Text × Text)) ∧
    (convertAll ⟨.standard, [], false, []⟩ false none 0
      [⟨"s/a.sh", "s"⟩, ⟨"s/ci/a.sh", "s"⟩, ⟨"u/a.sh", "u"⟩]
      (run ⟨.standard, [], false, []⟩ false none ["s", "u/a.sh"] scattered).files).2 =
        (run ⟨.standard, [], false, []⟩ false none ["s", "u/a.sh"] scattered).files := by
  have proper : scattered.root.Proper := by
    simp only [scattered, Entry.Proper, Entry.everywhere_directory, List.forall_mem_cons,
      List.not_mem_nil, false_imp_iff, implies_true, Entry.everywhere_file]
    decide
  have sources : (expand ⟨.standard, [], false, []⟩ scattered ["s", "u/a.sh"]).sources =
      [⟨"s/a.sh", "s"⟩, ⟨"s/ci/a.sh", "s"⟩, ⟨"u/a.sh", "u"⟩] := by decide
  have separate : Separate ⟨.standard, [], false, []⟩ scattered
      (expand ⟨.standard, [], false, []⟩ scattered ["s", "u/a.sh"]).sources := by
    rw [sources]
    exact .of_apart (by decide) (by decide) (by decide) (by decide)
  obtain ⟨still, names, -, -, -, -, again⟩ :=
    plan_predicts_conversion ⟨.standard, [], false, []⟩ proper ["s", "u/a.sh"] separate
  rw [sources] at names again
  refine ⟨still, names.trans (by decide), ?_⟩
  rw [again false]

end ShellToDeno.Batch
