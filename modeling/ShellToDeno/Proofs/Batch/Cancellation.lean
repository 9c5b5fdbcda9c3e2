import ShellToDeno.Proofs.Batch.Interleaving
import ShellToDeno.Proofs.Batch.Prediction

/-!
# Runs that are cancelled

A run that is cancelled leaves empty results for the sources it did not get to. Lines and steps are
made from a result by what it is not: what neither failed nor is unchanged counts as done. So the
sources that a run got to are reported as they are, and each of the others is claimed to have been
converted, without a name. A dry run also counts what it could not save.

A run is any interleaving of the steps of its jobs, cancelled at any moments (`Pool.Move`). The one
that converts one source after the other is among them (`Pool.exists_ends_convertAll`), and where
all sources can be started at once any of them can be left out (`Pool.exists_ends_leftOut`).
-/
namespace ShellToDeno.Batch

namespace FileResult

/-- Whether a result counts as done. -/
def claims (r : FileResult) : Bool := r.action ∉ [some .failed, some .unchanged]

/-- What a line of success begins with. -/
def successMark (colored : Bool) : Text := Tint.green.paint colored "✓"

/-- The line of a result that counts as done names its paths. -/
theorem line_of_claims {r : FileResult} (claims : r.claims = true) (colored : Bool) :
    ∃ rest, r.line colored false =
      successMark colored ++ (" " ++ r.input ++ " → " ++ r.output ++ rest) := by
  obtain ⟨input, output, action, markers, features, failure⟩ := r
  have line : FileResult.line colored false ⟨input, output, action, markers, features, failure⟩ =
      (if markers > 0 then successMark colored ++ " " ++ input ++ " → " ++ output ++ " " ++
          Tint.yellow.paint colored ("\x7b" ++ Text.ofNat markers ++ " FIXME\x7d")
        else successMark colored ++ " " ++ input ++ " → " ++ output) ++ "\n" := by
    cases action with
    | none => rfl
    | some action =>
      cases action with
      | written => rfl
      | planned => rfl
      | unchanged => cases claims
      | failed => cases claims
  rw [line]
  split
  · exact ⟨" " ++ Tint.yellow.paint colored ("\x7b" ++ Text.ofNat markers ++ " FIXME\x7d") ++ "\n",
      by simp only [List.append_assoc]⟩
  · exact ⟨"\n", by simp only [List.append_assoc]⟩

/-- A line has the mark of success where the result counts as done. -/
theorem begins_line (colored quiet : Bool) (r : FileResult) :
    Text.begins (successMark colored) (r.line colored quiet) = (!quiet && r.claims) := by
  cases claims : r.claims with
  | true =>
    cases quiet with
    | false =>
      obtain ⟨rest, line⟩ := line_of_claims claims colored
      have prefixed : (successMark colored).isPrefixOf (r.line colored false) = true := by
        rw [line, List.isPrefixOf_iff_prefix]
        exact List.prefix_append _ _
      rw [Text.begins, prefixed]
      cases colored <;> rfl
    | true =>
      obtain ⟨input, output, action, markers, features, failure⟩ := r
      cases action with
      | none => cases colored <;> rfl
      | some action =>
        cases action with
        | written => cases colored <;> rfl
        | planned => cases colored <;> rfl
        | unchanged => cases claims
        | failed => cases claims
  | false =>
    obtain ⟨input, output, action, markers, features, failure⟩ := r
    cases action with
    | none => cases claims
    | some action =>
      cases action with
      | written => cases claims
      | planned => cases claims
      | unchanged => cases colored <;> cases quiet <;> rfl
      | failed => cases colored <;> cases quiet <;> rfl

theorem step_kind_eq_convert_iff (r : FileResult) : r.step.kind = .convert ↔ r.claims = true := by
  obtain ⟨input, output, action, markers, features, failure⟩ := r
  cases action with
  | none => simp [step, claims]
  | some action => cases action <;> simp [step, claims]

end FileResult

namespace Job
variable {o : Options} {dryRun : Bool} {files : Files} {s : Source} {job : Job}

/-- Whether a job, if it is finished, has done something. -/
def Acts (job : Job) : Prop := ∀ r, job = .finished r → r.action ≠ none

theorem acts_compare (dryRun : Bool) (result : FileResult) (code : Text) (files : Files) :
    (compare dryRun result code files).Acts := by
  intro r compared
  rw [compare_eq] at compared
  split at compared
  · cases dryRun with
    | true =>
      cases compared
      exact Option.some_ne_none _
    | false => cases compared
  · cases compared
    obtain ⟨action, -⟩ := keep_fields result (files.look result.output)
    rcases List.mem_pair.1 action with action | action <;> simp [action]

/-- A job that takes a step does not leave its source out. -/
theorem acts_step (o : Options) (dryRun : Bool) (files : Files) (busy : job.isFinished = false) :
    (step o dryRun files job).1.Acts := by
  cases job with
  | waiting source =>
    change (compile o source files).Acts
    intro r ended
    rcases compile_cases o source files with ⟨_, compiled, failed, -⟩ | ⟨_, _, _, compiled, -⟩
    · rw [compiled] at ended
      cases ended
      rw [failed]
      exact Option.some_ne_none _
    · rw [compiled] at ended
      cases ended
  | compiled result code => exact acts_compare dryRun result code files
  | differing result code =>
    rw [step_differing]
    intro r ended
    cases ended
    obtain ⟨action, -⟩ := saved_fields result code files
    rcases List.mem_pair.1 action with action | action <;> simp [action]
  | finished result => cases busy

theorem write?_stage_dryRun (o : Options) (files : Files) (s : Source) (n : Nat) :
    (stage o true files s n).write? = none := by
  match n with
  | 0 => rfl
  | 1 => exact write?_stage_one o true files s
  | 2 => exact s.write?_dryRun o files
  | n + 3 => exact write?_of_isFinished (isFinished_stage_add_three o true files s n)

theorem eq_finished (ended : job.isFinished = true) : job = .finished job.result := by
  cases job with
  | finished result => rfl
  | _ => cases ended

end Job

/-- A result of the work on a source. -/
def FileResult.Names (o : Options) (s : Source) (r : FileResult) : Prop :=
  r.input = s.path ∧ r.output = o.outputPath s

/-- The output of a source is to be written, and that fails. -/
def Source.Unsavable (o : Options) (files : Files) (s : Source) : Prop :=
  ∃ w, s.write? o false files = some w ∧ (files.save w.path w.content w.executable).2 ≠ none

instance (o : Options) (files : Files) (s : Source) : Decidable (s.Unsavable o files) :=
  decidable_of_iff
    ((s.write? o false files).any fun w => (files.save w.path w.content w.executable).2 ≠ none)
    (by simp [Source.Unsavable, Option.any_eq_true])

namespace Pool
variable {o : Options} {dryRun : Bool} {limit : Nat} {files : Files} {sources : List Source}
  {p q : Pool} {place : Nat} {job : Job} {s : Source}

/-! What a move does at one place. -/

/-- The job at a place stays as it is, or it is the one that takes its step. -/
theorem Step.at_place (step : Step o dryRun limit p q) (there : p.jobs[place]? = some job) :
    q.jobs[place]? = some job ∨ job.isFinished = false ∧
      q.jobs[place]? = some (job.step o dryRun p.files).1 ∧
      q.files = (job.step o dryRun p.files).2 := by
  cases step with
  | start left room => exact .inl there
  | advance before other after started files begun busy =>
    rcases Nat.lt_trichotomy place before.length with early | rfl | late
    · rw [List.getElem?_append_left early] at there
      exact .inl ((List.getElem?_append_left early).trans there)
    · rw [List.getElem?_append_right (Nat.le_refl _), Nat.sub_self] at there
      cases there
      refine .inr ⟨busy, ?_, rfl⟩
      rw [List.getElem?_append_right (Nat.le_refl _), Nat.sub_self]
      rfl
    · obtain ⟨k, further⟩ : ∃ k, place - before.length = k + 1 :=
        Nat.exists_eq_succ_of_ne_zero (by omega)
      rw [List.getElem?_append_right (by omega), further, List.getElem?_cons_succ] at there
      rw [List.getElem?_append_right (by omega), further, List.getElem?_cons_succ]
      exact .inl there

theorem jobs_cancel (p : Pool) (late : Nat → Bool) (there : p.jobs[place]? = some job) :
    (p.cancel late).jobs[place]? =
      some (if place < p.started && !late place then job else job.leaveOut) := by
  rw [cancel, List.getElem?_mapIdx, there]
  rfl

theorem jobs_cancel_all (p : Pool) : (p.cancel fun _ => true).jobs = p.jobs.map Job.leaveOut := by
  apply List.ext_getElem?
  intro place
  rw [cancel, List.getElem?_mapIdx, List.getElem?_map]
  simp

/-- A move may also leave out a source that has not been looked at. -/
theorem Move.at_place (move : Move o dryRun limit p q) (there : p.jobs[place]? = some job) :
    q.jobs[place]? = some job ∨
      (Step o dryRun limit p q ∧ job.isFinished = false ∧
        q.jobs[place]? = some (job.step o dryRun p.files).1 ∧
        q.files = (job.step o dryRun p.files).2) ∨
      (∃ s, job = .waiting s) ∧ q.jobs[place]? = some (.finished .empty) := by
  cases move with
  | step step =>
    rcases step.at_place there with same | ⟨busy, turn, files⟩
    · exact .inl same
    · exact .inr (.inl ⟨step, busy, turn, files⟩)
  | cancel late =>
    rw [jobs_cancel p late there]
    split
    · exact .inl rfl
    · cases job with
      | waiting s => exact .inr (.inr ⟨⟨s, rfl⟩, rfl⟩)
      | _ => exact .inl rfl

theorem Move.length_jobs (move : Move o dryRun limit p q) : q.jobs.length = p.jobs.length := by
  cases move with
  | step step =>
    cases step with
    | start left room => rfl
    | advance before job after started files begun busy => simp
  | cancel late => exact List.length_mapIdx

/-- The files change only in the step of a job. -/
theorem Move.files_cases (move : Move o dryRun limit p q) : q.files = p.files ∨
    ∃ (place : Nat) (job : Job), p.jobs[place]? = some job ∧
      q.files = (job.step o dryRun p.files).2 := by
  cases move with
  | step step =>
    cases step with
    | start left room => exact .inl rfl
    | advance before job after started files begun busy =>
      exact .inr ⟨before.length, job, by simp, rfl⟩
  | cancel late => exact .inl rfl

theorem moves_of_steps (steps : Relation.ReflTransGen (Step o dryRun limit) p q) :
    Relation.ReflTransGen (Move o dryRun limit) p q := by
  induction steps with
  | refl => exact .refl
  | tail _ step ih => exact ih.tail (.step step)

theorem length_jobs (moves : Relation.ReflTransGen (Move o dryRun limit) p q) :
    q.jobs.length = p.jobs.length := by
  induction moves with
  | refl => rfl
  | tail _ move ih => exact move.length_jobs.trans ih

theorem jobs_start (files : Files) (listed : sources[place]? = some s) :
    (start sources files).jobs[place]? = some (.waiting s) := by
  rw [start, List.getElem?_map, listed]
  rfl

/-- Each job of a run is that of a source. -/
theorem exists_source
    (moves : Relation.ReflTransGen (Move o dryRun limit) (start sources files) p)
    (there : p.jobs[place]? = some job) : ∃ s, sources[place]? = some s := by
  have length := length_jobs moves
  rw [start, List.length_map] at length
  obtain ⟨within, -⟩ := List.getElem?_eq_some_iff.1 there
  exact ⟨_, List.getElem?_eq_getElem (length ▸ within)⟩

theorem finished_stays {r : FileResult} (moves : Relation.ReflTransGen (Move o dryRun limit) p q)
    (there : p.jobs[place]? = some (.finished r)) : q.jobs[place]? = some (.finished r) := by
  induction moves with
  | refl => exact there
  | tail _ move ih =>
    rcases move.at_place ih with same | ⟨-, busy, -⟩ | ⟨⟨s, waiting⟩, -⟩
    · exact same
    · cases busy
    · cases waiting

/-- Without being cancelled a run leaves no source out. -/
theorem acts_of_steps (steps : Relation.ReflTransGen (Step o dryRun limit) p q)
    (there : ∃ job, p.jobs[place]? = some job ∧ job.Acts) :
    ∃ job, q.jobs[place]? = some job ∧ job.Acts := by
  induction steps with
  | refl => exact there
  | tail _ step ih =>
    obtain ⟨job, there, acts⟩ := ih
    rcases step.at_place there with same | ⟨busy, turn, -⟩
    · exact ⟨job, same, acts⟩
    · exact ⟨_, turn, Job.acts_step o dryRun _ busy⟩

/-! What a run has done. -/

/-- A run that has come to its end, whether it was cancelled or not. -/
def Ends (o : Options) (dryRun : Bool) (limit : Nat) (sources : List Source) (files : Files)
    (p : Pool) : Prop :=
  Relation.ReflTransGen (Move o dryRun limit) (start sources files) p ∧ p.isFinished = true

/-- What a run has done with the source at a place: its job has written the output, which could be
seen from then on; in a dry run, the input was compiled, the output that is there differs and the
new one can be saved. -/
inductive Did (o : Options) (limit : Nat) (sources : List Source) (files : Files) (p : Pool)
    (place : Nat) (s : Source) : Bool → Prop
  | wrote {before after : Pool} {job : Job} {w : Write}
      (earlier : Relation.ReflTransGen (Move o false limit) (start sources files) before)
      (there : before.jobs[place]? = some job) (writes : job.write? = some w)
      (step : Step o false limit before after)
      (turn : after.jobs[place]? = some (job.step o false before.files).1)
      (path : w.path = o.outputPath s)
      (saved : before.files.save w.path w.content w.executable = (after.files, none))
      (seen : after.files.look w.path = .ok (some w.content))
      (later : Relation.ReflTransGen (Move o false limit) after p) :
      Did o limit sources files p place s false
  | examined {w : Write} (writes : s.write? o false files = some w)
      (saved : (files.save w.path w.content w.executable).2 = none) :
      Did o limit sources files p place s true

/-- What has been written is reported so. -/
theorem Did.written (did : Did o limit sources files p place s false) :
    ∃ r, p.jobs[place]? = some (.finished r) ∧ r.action = some .written := by
  cases did with
  | @wrote before after job w earlier there writes step turn path saved seen later =>
    cases job with
    | differing result code =>
      cases writes
      rw [Job.step_differing, Job.saved, saved] at turn
      exact ⟨_, finished_stays later turn, rfl⟩
    | _ => cases writes

theorem Did.tail (did : Did o limit sources files p place s false) (move : Move o false limit p q) :
    Did o limit sources files q place s false := by
  cases did with
  | wrote earlier there writes step turn path saved seen later =>
    exact .wrote earlier there writes step turn path saved seen (later.tail move)

/-- Where the job on a source stands. -/
inductive Stands (o : Options) (s : Source) (did : Prop) : Job → Prop
  | waiting : Stands o s did (.waiting s)
  | compiled {result : FileResult} {code : Text} (names : result.Names o s) :
      Stands o s did (.compiled result code)
  | differing {result : FileResult} {code : Text} (names : result.Names o s) :
      Stands o s did (.differing result code)
  | leftOut : Stands o s did (.finished .empty)
  | finished {r : FileResult} (names : r.Names o s)
      (action : r.action ∈ [some .written, some .unchanged, some .failed])
      (done : r.action = some .written → did) : Stands o s did (.finished r)

theorem Stands.mono {did more : Prop} (stands : Stands o s did job) (further : did → more) :
    Stands o s more job := by
  cases stands with
  | waiting => exact .waiting
  | compiled names => exact .compiled names
  | differing names => exact .differing names
  | leftOut => exact .leftOut
  | finished names action done => exact .finished names action fun written => further (done written)

/-- One step of a job. -/
theorem Stands.step {did : Prop} (stands : Stands o s did job) (busy : job.isFinished = false)
    (writes : ∀ w, job.write? = some w → w.path = o.outputPath s →
      (files.save w.path w.content w.executable).2 = none → did) :
    Stands o s did (job.step o false files).1 := by
  cases stands with
  | waiting =>
    change Stands o s did (Job.compile o s files)
    rcases Job.compile_cases o s files with ⟨result, compiled, failed, input, output⟩ |
      ⟨result, code, _, compiled, output, input, -⟩
    · rw [compiled]
      exact .finished ⟨input, output⟩ (by simp [failed]) (by simp [failed])
    · rw [compiled]
      exact .compiled ⟨input, output⟩
  | @compiled result code names =>
    change Stands o s did (Job.compare false result code files)
    rw [Job.compare_eq]
    split
    · exact .differing names
    · obtain ⟨action, input, output⟩ := Job.keep_fields result (files.look result.output)
      refine .finished ⟨input.trans names.1, output.trans names.2⟩
        (List.mem_cons_of_mem _ action) ?_
      rcases List.mem_pair.1 action with action | action <;> simp [action]
  | @differing result code names =>
    rw [Job.step_differing]
    obtain ⟨action, input, output⟩ := Job.saved_fields result code files
    refine .finished ⟨input.trans names.1, output.trans names.2⟩ ?_ fun written => ?_
    · rcases List.mem_pair.1 action with action | action <;> simp [action]
    · apply writes _ rfl names.2
      rw [Job.saved] at written
      cases failure : (files.save result.output code (Text.begins "#!" code)).2 with
      | none => rfl
      | some f => simp [failure, FileResult.fail] at written
  | leftOut => cases busy
  | finished => cases busy

/-- Where the job at a place stands in a run that writes. -/
theorem exists_stands (moves : Relation.ReflTransGen (Move o false limit) (start sources files) p)
    (listed : sources[place]? = some s) :
    ∃ job, p.jobs[place]? = some job ∧
      Stands o s (Did o limit sources files p place s false) job := by
  induction moves with
  | refl =>
    exact ⟨.waiting s, jobs_start files listed, .waiting⟩
  | @tail before after earlier move ih =>
    obtain ⟨job, there, stands⟩ := ih
    have still := stands.mono fun did : Did .. => did.tail move
    rcases move.at_place there with same | ⟨step, busy, turn, files⟩ | ⟨-, gone⟩
    · exact ⟨job, same, still⟩
    · refine ⟨_, turn, still.step busy fun w writes path saved => ?_⟩
      cases job with
      | differing result code =>
        cases writes
        rw [Job.step_differing] at files
        have whole : before.files.save result.output code (Text.begins "#!" code) =
            (after.files, none) := Prod.ext files.symm saved
        exact .wrote earlier there rfl step turn path whole (Files.look_of_save whole) .refl
      | _ => cases writes
    · exact ⟨_, gone, .leftOut⟩

/-- A dry run changes nothing, and its jobs do what they do alone. -/
theorem dry_run (moves : Relation.ReflTransGen (Move o true limit) (start sources files) p) :
    p.files = files ∧ ∀ (place : Nat) (s : Source), sources[place]? = some s →
      p.jobs[place]? = some (.finished .empty) ∨
        ∃ n, p.jobs[place]? = some (Job.stage o true files s n) := by
  induction moves with
  | refl =>
    exact ⟨rfl, fun place s listed => .inr ⟨0, jobs_start files listed⟩⟩
  | @tail before after earlier move ih =>
    obtain ⟨same, each⟩ := ih
    constructor
    · rcases move.files_cases with still | ⟨place, job, there, changed⟩
      · exact still.trans same
      · obtain ⟨s, listed⟩ := exists_source earlier there
        rw [changed, same]
        rcases each place s listed with gone | ⟨n, at_stage⟩
        · rw [there] at gone
          cases gone
          rfl
        · rw [there] at at_stage
          cases at_stage
          have silent := Job.write?_stage_dryRun o files s n
          rw [Job.step_files (by simp [silent]), silent]
          rfl
    · intro place s listed
      rcases each place s listed with gone | ⟨n, at_stage⟩
      · rcases move.at_place gone with same | ⟨-, busy, -⟩ | ⟨⟨s, waiting⟩, -⟩
        · exact .inl same
        · cases busy
        · cases waiting
      · rcases move.at_place at_stage with same | ⟨-, -, turn, -⟩ | ⟨-, gone⟩
        · exact .inr ⟨n, same⟩
        · rw [same] at turn
          exact .inr ⟨n + 1, turn⟩
        · exact .inl gone

/-! Runs of two kinds. -/

/-- The job at a place takes a step, if there is one left. -/
theorem steps_advance (before after : List Job) (job : Job) {started : Nat} (files : Files)
    (begun : before.length < started) : Relation.ReflTransGen (Move o dryRun limit)
      ⟨before ++ job :: after, started, files⟩
      ⟨before ++ (job.step o dryRun files).1 :: after, started, (job.step o dryRun files).2⟩ := by
  cases busy : job.isFinished with
  | true =>
    rw [Job.step_of_isFinished busy]
  | false => exact .single (.step (.advance before job after started files begun busy))

theorem steps_run (before after : List Job) (s : Source) {started : Nat} (files : Files)
    (begun : before.length < started) : Relation.ReflTransGen (Move o dryRun limit)
      ⟨before ++ .waiting s :: after, started, files⟩
      ⟨before ++ .finished (Job.run o dryRun s files).1 :: after, started,
        (Job.run o dryRun s files).2⟩ := by
  have one : Job.step o dryRun files (Job.stage o dryRun files s 1) =
      (Job.stage o dryRun files s 2, files) := Job.step_stage_one o dryRun files s
  have first : Relation.ReflTransGen (Move o dryRun limit) _ _ :=
    steps_advance before after (.waiting s) files begun
  have second : Relation.ReflTransGen (Move o dryRun limit) _ _ :=
    steps_advance before after (Job.stage o dryRun files s 1) files begun
  rw [one] at second
  have third : Relation.ReflTransGen (Move o dryRun limit) _ _ :=
    steps_advance before after (Job.stage o dryRun files s 2) files begun
  rw [← Job.stage_succ, Job.eq_finished (Job.isFinished_stage_three o dryRun files s)] at third
  rw [Job.run_eq]
  exact (first.trans second).trans third

/-- Jobs that are finished do not run. -/
theorem running_finished (done : List FileResult) (rest : List Job) (files : Files) :
    running ⟨done.map .finished ++ rest, done.length, files⟩ = 0 := by
  have first : (done.map Job.finished ++ rest).take done.length = done.map .finished := by
    rw [List.take_left' (List.length_map _)]
  rw [running, first, List.countP_eq_zero]
  intro job member
  obtain ⟨r, -, rfl⟩ := List.mem_map.1 member
  exact Bool.false_ne_true

/-- Converting one source after the other is a run, also when it is cancelled. -/
theorem exists_moves_convertAll (o : Options) (dryRun : Bool) (positive : 0 < limit)
    (cancelAt : Option Nat) (done : List FileResult) (sources : List Source) (files : Files) :
    ∃ started, Relation.ReflTransGen (Move o dryRun limit)
      ⟨done.map .finished ++ sources.map .waiting, done.length, files⟩
      ⟨(done ++ (convertAll o dryRun cancelAt done.length sources files).1).map .finished, started,
        (convertAll o dryRun cancelAt done.length sources files).2⟩ := by
  induction sources generalizing done files with
  | nil =>
    refine ⟨done.length, ?_⟩
    rw [convertAll, List.map_nil, List.append_nil, List.append_nil]
  | cons s rest ih =>
    by_cases cancelled : cancelAt.any (· ≤ done.length) = true
    · have left : (cancel ⟨done.map .finished ++ (s :: rest).map .waiting, done.length, files⟩
            fun _ => true).jobs =
          (done ++ FileResult.empty :: rest.map fun _ => .empty).map .finished := by
        rw [jobs_cancel_all, List.map_append, List.map_append, List.map_cons, List.map_cons,
          List.map_cons, List.map_map, List.map_map, List.map_map]
        rfl
      refine ⟨done.length, .single ?_⟩
      rw [convertAll, if_pos cancelled, ← left]
      exact .cancel _ _
    · have going : cancelAt.any (· ≤ done.length) = false := Bool.eq_false_iff.2 cancelled
      obtain ⟨started, later⟩ :=
        ih (done ++ [(Job.run o dryRun s files).1]) (Job.run o dryRun s files).2
      refine ⟨started, ?_⟩
      have begin : Move o dryRun limit
          ⟨done.map .finished ++ (s :: rest).map .waiting, done.length, files⟩
          ⟨done.map .finished ++ .waiting s :: rest.map .waiting, done.length + 1, files⟩ :=
        .step (.start _ (by simp) (by rw [running_finished]; exact positive))
      have work : Relation.ReflTransGen (Move o dryRun limit) _ _ :=
        steps_run (done.map .finished) (rest.map .waiting) s files
          (by rw [List.length_map]; exact Nat.lt_succ_self _)
      refine (Relation.ReflTransGen.head begin work).trans ?_
      rw [convertAll_cons going]
      simpa using later

theorem exists_ends_convertAll (o : Options) (dryRun : Bool) (positive : 0 < limit)
    (cancelAt : Option Nat) (sources : List Source) (files : Files) :
    ∃ p, Ends o dryRun limit sources files p ∧
      (p.results, p.files) = convertAll o dryRun cancelAt 0 sources files := by
  obtain ⟨started, moves⟩ := exists_moves_convertAll o dryRun positive cancelAt [] sources files
  refine ⟨_, ⟨moves, ?_⟩, ?_⟩
  · rw [isFinished, List.all_map, List.all_eq_true]
    exact fun _ _ => rfl
  · rw [results, List.map_map]
    exact Prod.ext (List.map_id _) rfl

/-- All sources are started before any job takes a step. -/
theorem moves_start_all (o : Options) (dryRun : Bool) (room : sources.length ≤ limit)
    (files : Files) {n : Nat} (within : n ≤ sources.length) :
    Relation.ReflTransGen (Move o dryRun limit) (start sources files)
      ⟨sources.map .waiting, n, files⟩ := by
  induction n with
  | zero => exact .refl
  | succ n ih =>
    refine (ih (by omega)).tail (.step (.start _ (by simp; omega) ?_))
    have most := (List.countP_le_length (l := (sources.map Job.waiting).take n)
      (p := fun job => !job.isFinished))
    rw [List.length_take, List.length_map] at most
    exact Nat.lt_of_le_of_lt most (by omega)

/-- Any sources can be left out where all can be started at once. -/
theorem exists_ends_leftOut (o : Options) (dryRun : Bool) (positive : 0 < limit)
    (room : sources.length ≤ limit) (files : Files) (late : Nat → Bool) :
    ∃ p, Ends o dryRun limit sources files p ∧
      ∀ (place : Nat) (s : Source), sources[place]? = some s →
        ∃ r, p.results[place]? = some r ∧ (r = .empty ↔ late place = true) := by
  have all := moves_start_all o dryRun room files (Nat.le_refl _)
  have cut := all.tail (.cancel _ late)
  obtain ⟨p, steps, ended⟩ : ∃ p, Relation.ReflTransGen (Step o dryRun limit)
      (cancel ⟨sources.map .waiting, sources.length, files⟩ late) p ∧ p.isFinished = true :=
    exists_finished positive _
  have moves := moves_of_steps steps
  refine ⟨p, ⟨cut.trans moves, ended⟩, fun place s listed => ?_⟩
  have within : place < sources.length := (List.getElem?_eq_some_iff.1 listed).1
  have here := jobs_cancel ⟨sources.map .waiting, sources.length, files⟩ late
    (jobs_start files listed)
  dsimp only at here
  cases out : late place with
  | true =>
    rw [out, Bool.not_true, Bool.and_false, if_neg Bool.false_ne_true] at here
    have stays : p.jobs[place]? = some (.finished .empty) := finished_stays moves here
    refine ⟨.empty, ?_, by simp⟩
    rw [results, List.getElem?_map, stays]
    rfl
  | false =>
    rw [out, if_pos (by simpa using within)] at here
    obtain ⟨job, stays, acts⟩ := acts_of_steps steps ⟨_, here, by simp [Job.Acts]⟩
    have done : job.isFinished = true :=
      List.all_eq_true.1 ended job (List.mem_of_getElem? stays)
    refine ⟨job.result, ?_, ?_⟩
    · rw [results, List.getElem?_map, stays]
      rfl
    · have acted := acts _ (Job.eq_finished done)
      simp only [Bool.false_eq_true, iff_false]
      intro empty
      rw [empty] at acted
      exact acted rfl

end Pool

/-! What is claimed. -/

/-- What the result of a dry run claims. -/
theorem claims_planned (o : Options) (files : Files) (s : Source) :
    (Job.stage o true files s 3).result.claims = (s.write? o false files).isSome := by
  rcases Job.compile_cases o s files with ⟨result, compiled, failed, -⟩ |
    ⟨result, code, _, compiled, -⟩
  · rw [Job.result_of_finished compiled, Job.write?_of_finished compiled, FileResult.claims, failed]
    rfl
  · rw [Job.result_of_compiled compiled, Job.write?_of_compiled compiled]
    by_cases differing : Job.differs code (files.look result.output) = true
    · rw [if_pos differing, differing]
      rfl
    · obtain ⟨action, -⟩ := Job.keep_fields result (files.look result.output)
      rw [if_neg differing, Bool.eq_false_iff.2 differing, FileResult.claims]
      rcases List.mem_pair.1 action with action | action
      · rw [action]
        rfl
      · rw [action]
        rfl

/-- A file is reported as written where it can be saved. -/
theorem written_iff_saved {o : Options} {files : Files} {s : Source} {w : Write}
    (writes : s.write? o false files = some w) :
    (Job.run o false s files).1.action = some .written ↔
      (files.save w.path w.content w.executable).2 = none := by
  rcases Job.stage_two_cases o false files s with ⟨result, two⟩ | ⟨-, result, code, two, -⟩
  · rw [Source.write?, two] at writes
    cases writes
  · rw [Source.write?, two] at writes
    cases writes
    rw [Job.run_eq, Job.stage_succ 2, two, Job.step_differing]
    dsimp only [Job.result]
    rw [Job.saved]
    cases (files.save result.output code (Text.begins "#!" code)).2 with
    | none => simp
    | some f => simp [FileResult.fail]

/-- A result that counts as done, in its line and as a step of a plan, exactly where the work on its
source was done. -/
structure Truthful (o : Options) (colored : Bool) (s : Source) (done : Prop) (r : FileResult) :
    Prop where
  names : r.Names o s
  acted : r.action ≠ none
  line : Text.begins (FileResult.successMark colored) (r.line colored false) = true ↔ done
  step : r.step.kind = .convert ↔ done
  shown : done → ∃ rest, r.line colored false =
    FileResult.successMark colored ++ (" " ++ s.path ++ " → " ++ o.outputPath s ++ rest)

theorem truthful_of_claims {o : Options} {s : Source} {done : Prop} {r : FileResult}
    (names : r.Names o s) (acted : r.action ≠ none) (claims : r.claims = true ↔ done)
    (colored : Bool) : Truthful o colored s done r := by
  refine ⟨names, acted, ?_, ?_, fun did => ?_⟩
  · rw [FileResult.begins_line, Bool.not_false, Bool.true_and, claims]
  · rw [FileResult.step_kind_eq_convert_iff, claims]
  · obtain ⟨rest, line⟩ := FileResult.line_of_claims (claims.2 did) colored
    exact ⟨rest, by rw [line, names.1, names.2]⟩

/-- A dry run does not try to save. -/
theorem action_of_unsavable {o : Options} {files : Files} {s : Source}
    (unsavable : s.Unsavable o files) :
    (Job.stage o true files s 3).result.action = some .planned := by
  obtain ⟨w, writes, -⟩ := unsavable
  have claims := claims_planned o files s
  rw [writes, Option.isSome_some, FileResult.claims, decide_eq_true_iff] at claims
  obtain ⟨action, -⟩ := Job.result_fields o true files s
  refine (List.mem_cons.1 action).resolve_right fun idle => claims ?_
  exact List.mem_pair.2 (List.mem_pair.1 idle).symm

/-- A name that is too long, in a directory that is not there. -/
example : Source.Unsavable ⟨.standard, [], false, ("x/" : Text) ++ List.replicate 256 97⟩ scattered
    ⟨"u/a.sh", "u"⟩ := by decide +kernel

/-- What a dry run would do with a source that it can save. -/
theorem did_iff_of_savable {o : Options} {limit : Nat} {files : Files} {sources : List Source}
    {p : Pool} {place : Nat} {s : Source} (savable : ¬ s.Unsavable o files) :
    Pool.Did o limit sources files p place s true ↔ (s.write? o false files).isSome = true := by
  rw [Option.isSome_iff_exists]
  constructor
  · intro did
    cases did with
    | examined writes _ => exact ⟨_, writes⟩
  · rintro ⟨w, writes⟩
    by_contra idle
    exact savable ⟨w, writes, fun saved => idle (.examined writes saved)⟩

/-- A run tells of each source what it did, or leaves an empty result; a dry run also plans what it
could not save. -/
theorem Pool.Ends.truthful {o : Options} {dryRun : Bool} {limit : Nat} {files : Files}
    {sources : List Source} {p : Pool} (ends : Ends o dryRun limit sources files p) (colored : Bool)
    {place : Nat} {s : Source} (listed : sources[place]? = some s) :
    ∃ r, p.results[place]? = some r ∧ (r = .empty ∨
      (dryRun = true ∧ s.Unsavable o files) ∧ r.Names o s ∧ r.action = some .planned ∨
      ¬ (dryRun = true ∧ s.Unsavable o files) ∧
        Truthful o colored s (Did o limit sources files p place s dryRun) r) := by
  obtain ⟨moves, ended⟩ := ends
  have at_end {job : Job} (there : p.jobs[place]? = some job) :
      job.isFinished = true ∧ p.results[place]? = some job.result := by
    refine ⟨List.all_eq_true.1 ended job (List.mem_of_getElem? there), ?_⟩
    rw [results, List.getElem?_map, there]
    rfl
  cases dryRun with
  | false =>
    obtain ⟨job, there, stands⟩ := exists_stands moves listed
    obtain ⟨done, result⟩ := at_end there
    refine ⟨_, result, ?_⟩
    cases stands with
    | leftOut => exact .inl rfl
    | @finished r names action did =>
      have same : r.claims = true ↔ r.action = some .written := by
        simp only [List.mem_cons, List.not_mem_nil, or_false] at action
        rcases action with action | action | action <;> simp [FileResult.claims, action]
      refine .inr (.inr ⟨fun dry => Bool.false_ne_true dry.1,
        truthful_of_claims names ?_ ?_ colored⟩)
      · intro absent
        change r.action = none at absent
        simp [absent] at action
      · rw [same]
        refine ⟨did, fun wrote => ?_⟩
        obtain ⟨other, here, written⟩ := wrote.written
        rw [there] at here
        cases here
        exact written
    | _ => cases done
  | true =>
    obtain ⟨-, each⟩ := dry_run moves
    rcases each place s listed with gone | ⟨n, there⟩
    · exact ⟨_, (at_end gone).2, .inl rfl⟩
    · obtain ⟨done, result⟩ := at_end there
      rw [Job.stage_of_isFinished done] at result
      obtain ⟨action, names⟩ := Job.result_fields o true files s
      refine ⟨_, result, .inr ?_⟩
      by_cases unsavable : s.Unsavable o files
      · exact .inl ⟨⟨rfl, unsavable⟩, names, action_of_unsavable unsavable⟩
      · refine .inr ⟨fun dry => unsavable dry.2, truthful_of_claims names ?_ ?_ colored⟩
        · intro absent
          simp [absent] at action
        · rw [claims_planned, did_iff_of_savable unsavable]

/-- Results that count as done: those of files that were written or planned, and the empty ones. -/
theorem countP_claims (results : List FileResult) : results.countP FileResult.claims =
    results.countP (fun r => r.action ∈ [some .written, some .planned]) +
      results.countP (·.action = none) := by
  induction results with
  | nil => rfl
  | cons r rest ih =>
    obtain ⟨input, output, action, markers, features, failure⟩ := r
    simp only [List.countP_cons, ih]
    cases action with
    | none => simp [FileResult.claims, Nat.add_assoc]
    | some action => cases action <;> simp [FileResult.claims, Nat.add_right_comm]

/-- A run that is cancelled at any moments, with any number of jobs at a time, claims of each source
it got to what it did, or would do, and of each of the others that it has been converted, under no
name; its plan counts them too. Any sources can be left out so, also when they are converted one
after the other; a run that is not cancelled leaves none out. Only a quiet run claims no success.
A dry run plans also what it could not save, and what it plans is written if it can be saved. -/
theorem cancelled_runs_claim_too_much (o : Options) (dryRun colored : Bool) {limit : Nat}
    (positive : 0 < limit) (sources : List Source) (files : Files) :
    (∀ p, Pool.Ends o dryRun limit sources files p →
      p.results.length = sources.length ∧
      (∀ (place : Nat) (s : Source), sources[place]? = some s →
        ∃ r, p.results[place]? = some r ∧ (r = .empty ∨
          (dryRun = true ∧ s.Unsavable o files) ∧ r.Names o s ∧ r.action = some .planned ∨
          ¬ (dryRun = true ∧ s.Unsavable o files) ∧
            Truthful o colored s (Pool.Did o limit sources files p place s dryRun) r)) ∧
      p.results.countP
          (fun r => Text.begins (FileResult.successMark colored) (r.line colored false)) =
        p.results.countP (fun r => r.action ∈ [some .written, some .planned]) +
          p.results.countP (·.action = none) ∧
      (Report.plan ⟨p.results⟩).summary.convert =
        p.results.countP (fun r => r.action ∈ [some .written, some .planned]) +
          p.results.countP (·.action = none) ∧
      ∀ r ∈ p.results,
        Text.begins (FileResult.successMark colored) (r.line colored true) = false) ∧
    (∀ cancelAt, ∃ p, Pool.Ends o dryRun limit sources files p ∧
      (p.results, p.files) = convertAll o dryRun cancelAt 0 sources files) ∧
    (sources.length ≤ limit → ∀ late : Nat → Bool, ∃ p, Pool.Ends o dryRun limit sources files p ∧
      ∀ (place : Nat) (s : Source), sources[place]? = some s →
        ∃ r, p.results[place]? = some r ∧ (r = .empty ↔ late place = true)) ∧
    (∀ p, Relation.ReflTransGen (Pool.Step o dryRun limit) (Pool.start sources files) p →
      p.isFinished = true → ∀ r ∈ p.results, r.action ≠ none) ∧
    ∀ s w, s.write? o false files = some w →
      ((Job.run o false s files).1.action = some .written ↔
        (files.save w.path w.content w.executable).2 = none) := by
  refine ⟨fun p ends => ⟨?_, ?_, ?_, ?_, ?_⟩, ?_, ?_, ?_, ?_⟩
  · have length := Pool.length_jobs ends.1
    rw [Pool.start, List.length_map] at length
    rw [Pool.results, List.length_map, length]
  · exact fun place s listed => ends.truthful colored listed
  · rw [← countP_claims]
    apply List.countP_congr
    intro r _
    rw [FileResult.begins_line, Bool.not_false, Bool.true_and]
  · have convert : (Report.plan ⟨p.results⟩).summary.of .convert = _ :=
      Report.of_summary_plan _ (by decide)
    rw [← countP_claims]
    refine convert.trans (List.countP_congr fun r _ => ?_)
    rw [decide_eq_true_iff, FileResult.step_kind_eq_convert_iff]
  · exact fun r _ => FileResult.begins_line colored true r
  · exact fun cancelAt => Pool.exists_ends_convertAll o dryRun positive cancelAt sources files
  · exact fun room late => Pool.exists_ends_leftOut o dryRun positive room files late
  · intro p steps ended r member
    obtain ⟨job, listed, rfl⟩ := List.mem_map.1 member
    obtain ⟨place, there⟩ := List.mem_iff_getElem?.1 listed
    obtain ⟨s, source⟩ := Pool.exists_source (Pool.moves_of_steps steps) there
    obtain ⟨other, here, acts⟩ :=
      Pool.acts_of_steps steps ⟨_, Pool.jobs_start files source, by simp [Job.Acts]⟩
    rw [there] at here
    cases here
    exact acts _ (Job.eq_finished (List.all_eq_true.1 ended job listed))
  · exact fun s w writes => written_iff_saved writes

/-- Two scripts at a time, of which the first one is left out. -/
theorem cancelled_runs_claim_too_much_scattered :
    ∃ p, Pool.Ends ⟨.standard, [], false, []⟩ false 2 [⟨"s/a.sh", "s"⟩, ⟨"u/a.sh", "u"⟩]
    scattered p ∧ p.results[0]? = some .empty ∧
      ∃ r, p.results[1]? = some r ∧ Truthful ⟨.standard, [], false, []⟩ false ⟨"u/a.sh", "u"⟩
        (Pool.Did ⟨.standard, [], false, []⟩ 2 [⟨"s/a.sh", "s"⟩, ⟨"u/a.sh", "u"⟩] scattered p 1
          ⟨"u/a.sh", "u"⟩ false) r := by
  obtain ⟨claims, -, leftOut, -⟩ := cancelled_runs_claim_too_much ⟨.standard, [], false, []⟩ false
    false Nat.two_pos [⟨"s/a.sh", "s"⟩, ⟨"u/a.sh", "u"⟩] scattered
  obtain ⟨p, ends, each⟩ := leftOut (Nat.le_refl 2) (· == 0)
  obtain ⟨-, truthful, -⟩ := claims p ends
  obtain ⟨first, there, gone⟩ := each 0 _ rfl
  obtain ⟨second, here, kept⟩ := each 1 _ rfl
  obtain ⟨r, same, told⟩ := truthful 1 _ rfl
  rw [here] at same
  cases same
  rw [gone.2 rfl] at there
  refine ⟨p, ends, there, second, here, ?_⟩
  rcases told with empty | ⟨dry, -⟩ | ⟨-, truthful⟩
  · exact absurd (kept.1 empty) (by decide)
  · exact absurd dry.1 Bool.false_ne_true
  · exact truthful

/-- A run that is cancelled before it starts does nothing and claims success. -/
theorem cancelled_run_claims_success :
    (run ⟨.standard, [], false, []⟩ false (some 0) ["u/a.sh"] scattered).files = scattered ∧
    (run ⟨.standard, [], false, []⟩ false (some 0) ["u/a.sh"] scattered).report.text false false =
      "✓  → \n0 converted, 0 unchanged, 0 failed\n" ∧
    (run ⟨.standard, [], false, []⟩ true (some 0) ["u/a.sh"]
      scattered).report.plan.summary.convert =
      1 := by
  refine ⟨rfl, ?_, ?_⟩
  · decide
  · decide

end ShellToDeno.Batch
