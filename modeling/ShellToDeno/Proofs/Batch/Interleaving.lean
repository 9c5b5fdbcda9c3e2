import Mathlib.Algebra.BigOperators.Group.List.Basic
import Mathlib.Algebra.Ring.Nat
import Mathlib.Logic.Relation
import ShellToDeno.Batch.Pool
import ShellToDeno.Proofs.Batch.Jobs

/-!
# Conversions that run side by side

Every run of a pool comes to an end. Where the sources are independent, what it has come to is what
converting one source after the other gives.
-/
namespace ShellToDeno.Batch

/-- How many steps a job takes at most. -/
def Job.remaining : Job → Nat
  | .waiting _ => 3
  | .compiled _ _ => 2
  | .differing _ _ => 1
  | .finished _ => 0

theorem Job.remaining_step (o : Options) (dryRun : Bool) (files : Files) {job : Job}
    (busy : job.isFinished = false) : (step o dryRun files job).1.remaining < job.remaining := by
  cases job with
  | waiting source =>
    change (compile o source files).remaining < 3
    rcases compile_cases o source files with ⟨_, compiled, -⟩ | ⟨_, _, _, compiled, -⟩
    · rw [compiled]
      exact Nat.zero_lt_succ 2
    · rw [compiled]
      exact Nat.lt_succ_self 2
  | compiled result code =>
    change (compare dryRun result code files).remaining < 2
    rcases compare_cases dryRun result code files with ⟨final, compared⟩ | ⟨-, compared⟩
    · rw [compared]
      exact Nat.zero_lt_succ 1
    · rw [compared]
      exact Nat.lt_succ_self 1
  | differing result code =>
    rw [step_differing]
    exact Nat.zero_lt_one
  | finished result => exact Bool.noConfusion busy

namespace Pool
variable {o : Options} {dryRun : Bool} {limit : Nat} {files : Files} {sources : List Source}

/-! Every run comes to an end. -/

/-- How many steps a pool takes at most. -/
def remaining (p : Pool) : Nat :=
  (p.jobs.length - p.started) + (p.jobs.map Job.remaining).sum

theorem Step.remaining_lt {p q : Pool} (step : Step o dryRun limit p q) :
    q.remaining < p.remaining := by
  cases step with
  | start p left room =>
    simp only [remaining]
    omega
  | advance before job after started files begun busy =>
    have less := Job.remaining_step o dryRun files busy
    simp only [remaining, List.length_append, List.length_cons, List.map_append, List.map_cons,
      List.sum_append, List.sum_cons]
    omega

/-- A pool that is not finished can take a step. -/
theorem exists_step (o : Options) (dryRun : Bool) (positive : 0 < limit) {p : Pool}
    (unfinished : p.isFinished = false) :
    ∃ q, Step o dryRun limit p q := by
  by_cases idle : p.running = 0
  · by_cases left : p.started < p.jobs.length
    · exact ⟨_, .start p left (by omega)⟩
    · have whole : p.jobs.take p.started = p.jobs := List.take_of_length_le (by omega)
      rw [running, whole, List.countP_eq_zero] at idle
      have finished : p.isFinished = true := by
        rw [isFinished, List.all_eq_true]
        intro job member
        simpa using idle job member
      rw [finished] at unfinished
      cases unfinished
  · obtain ⟨job, member, busy⟩ := List.countP_pos_iff.1 (Nat.pos_of_ne_zero idle)
    obtain ⟨before, between, split⟩ := List.append_of_mem member
    obtain ⟨jobs, started, files⟩ := p
    have begun : before.length < started := by
      have short := List.length_take_le started jobs
      rw [split, List.length_append, List.length_cons] at short
      omega
    have parted : jobs = before ++ job :: (between ++ jobs.drop started) := by
      rw [← List.cons_append, ← List.append_assoc, ← split, List.take_append_drop]
    rw [parted]
    exact ⟨_, .advance before job _ started files begun (by simpa using busy)⟩

theorem exists_finished (positive : 0 < limit) (p : Pool) :
    ∃ q, Relation.ReflTransGen (Step o dryRun limit) p q ∧ q.isFinished = true := by
  induction p using (measure remaining).wf.induction with
  | _ p ih =>
    cases finished : p.isFinished with
    | true => exact ⟨p, .refl, finished⟩
    | false =>
      obtain ⟨next, step⟩ := exists_step o dryRun positive finished
      obtain ⟨q, steps, ended⟩ := ih next step.remaining_lt
      exact ⟨q, .head step steps, ended⟩

/-! What a run of independent jobs has come to. -/

/-- Each job has taken some steps, all of them as if it were alone, and the files are those after
the work on the sources that are done, in the order in which they came to their ends. -/
structure Reached (o : Options) (dryRun : Bool) (files : Files) (sources : List Source)
    (progress : List (Source × Nat)) (done : List Source) (p : Pool) : Prop where
  sources : progress.map Prod.fst = sources
  jobs : p.jobs = progress.map fun taken => Job.stage o dryRun files taken.1 taken.2
  once : done.Nodup
  ended : ∀ s, s ∈ done ↔
    ∃ n, (s, n) ∈ progress ∧ (Job.stage o dryRun files s n).isFinished = true
  files : p.files = afterAll o dryRun files done

variable {progress : List (Source × Nat)} {done : List Source}

theorem Reached.start (o : Options) (dryRun : Bool) (files : Files) (sources : List Source) :
    Reached o dryRun files sources (sources.map (·, 0)) [] (start sources files) := by
  constructor
  · rw [List.map_map]
    exact List.map_id sources
  · rw [List.map_map]
    rfl
  · exact .nil
  · intro s
    constructor
    · exact nofun
    · rintro ⟨n, member, finished⟩
      obtain ⟨t, -, same⟩ := List.mem_map.1 member
      cases same
      cases finished
  · rfl

theorem Reached.subset {p : Pool} (reached : Reached o dryRun files sources progress done p) :
    done ⊆ sources := by
  intro s member
  obtain ⟨n, listed, -⟩ := (reached.ended s).1 member
  exact reached.sources ▸ List.mem_map_of_mem listed

/-- A job that takes a step takes the one that it takes alone. -/
theorem Reached.advance (independent : Independent o files sources)
    {before after : List (Source × Nat)} {s : Source} {n : Nat} {p : Pool}
    (reached : Reached o dryRun files sources (before ++ (s, n) :: after) done p)
    (busy : (Job.stage o dryRun files s n).isFinished = false) :
    ∃ done, Reached o dryRun files sources (before ++ (s, n + 1) :: after) done
      ⟨before.map (fun taken => Job.stage o dryRun files taken.1 taken.2) ++
          (Job.step o dryRun p.files (Job.stage o dryRun files s n)).1 ::
            after.map (fun taken => Job.stage o dryRun files taken.1 taken.2),
        p.started, (Job.step o dryRun p.files (Job.stage o dryRun files s n)).2⟩ := by
  have same : before.map Prod.fst ++ s :: after.map Prod.fst = sources := by
    rw [← reached.sources, List.map_append, List.map_cons]
  have member : s ∈ sources := by simp [← same]
  have elsewhere (t : Source) (m : Nat) (other : (t, m) ∈ before ++ after) : t ≠ s := by
    rintro rfl
    have once := independent.nodup
    rw [← same, List.nodup_middle, List.nodup_cons] at once
    apply once.1
    rw [← List.map_append]
    exact List.mem_map_of_mem other
  have inside (t : Source) (m k : Nat) : (t, m) ∈ before ++ (s, k) :: after ↔
      t = s ∧ m = k ∨ (t, m) ∈ before ++ after := by
    simp only [List.mem_append, List.mem_cons, Prod.mk.injEq]
    tauto
  have fresh : s ∉ done := by
    intro ended
    obtain ⟨m, listed, finished⟩ := (reached.ended s).1 ended
    rcases (inside s m n).1 listed with ⟨-, rfl⟩ | other
    · rw [busy] at finished
      cases finished
    · exact elsewhere s m other rfl
  have ended (t : Source) :
      (t ∈ done ∨ t = s ∧ (Job.stage o dryRun files s (n + 1)).isFinished = true) ↔
      ∃ m, (t, m) ∈ before ++ (s, n + 1) :: after ∧
        (Job.stage o dryRun files t m).isFinished = true := by
    rw [reached.ended t]
    constructor
    · rintro (⟨m, listed, finished⟩ | ⟨rfl, finished⟩)
      · rcases (inside t m n).1 listed with ⟨rfl, rfl⟩ | other
        · rw [busy] at finished
          cases finished
        · exact ⟨m, (inside t m (n + 1)).2 (.inr other), finished⟩
      · exact ⟨n + 1, (inside t (n + 1) (n + 1)).2 (.inl ⟨rfl, rfl⟩), finished⟩
    · rintro ⟨m, listed, finished⟩
      rcases (inside t m (n + 1)).1 listed with ⟨rfl, rfl⟩ | other
      · exact .inr ⟨rfl, finished⟩
      · exact .inl ⟨m, (inside t m n).2 (.inr other), finished⟩
  have step := independent.step_eq dryRun reached.subset reached.once member fresh n
  have listed : (before ++ (s, n + 1) :: after).map Prod.fst = sources := by
    rw [List.map_append, List.map_cons, same]
  rw [reached.files, step]
  cases last : (Job.stage o dryRun files s (n + 1)).isFinished with
  | false =>
    have silent : (Job.stage o dryRun files s n).write? = none := by
      by_contra writes
      have ended : (Job.stage o dryRun files s (n + 1)).isFinished = true :=
        Job.isFinished_step_of_write? writes
      rw [last] at ended
      cases ended
    refine ⟨done, listed, by rw [List.map_append, List.map_cons], reached.once, ?_, ?_⟩
    · intro t
      rw [← ended t, last]
      simp
    · rw [silent]
      rfl
  | true =>
    refine ⟨done ++ [s], listed, by rw [List.map_append, List.map_cons], ?_, ?_, ?_⟩
    · rw [← List.concat_eq_append]
      exact reached.once.concat fresh
    · intro t
      rw [← ended t, last]
      simp
    · rw [Job.write?_stage busy last, afterAll_append]

/-- What one step of a pool does. -/
theorem Reached.step (independent : Independent o files sources) {p q : Pool}
    (reached : Reached o dryRun files sources progress done p) (step : Step o dryRun limit p q) :
    ∃ progress done, Reached o dryRun files sources progress done q := by
  cases step with
  | start left room =>
    exact ⟨progress, done, reached.sources, reached.jobs, reached.once, reached.ended,
      reached.files⟩
  | advance before job after started now begun busy =>
    obtain ⟨first, second, rfl, earlier, others⟩ := List.map_eq_append_iff.1 reached.jobs.symm
    obtain ⟨⟨s, n⟩, rest, rfl, rfl, later⟩ := List.map_eq_cons_iff.1 others
    subst earlier later
    obtain ⟨done, reached⟩ := reached.advance independent busy
    exact ⟨_, done, reached⟩

/-- What a whole run of a pool does. -/
theorem Reached.steps (independent : Independent o files sources) {p q : Pool}
    (reached : Reached o dryRun files sources progress done p)
    (steps : Relation.ReflTransGen (Step o dryRun limit) p q) :
    ∃ progress done, Reached o dryRun files sources progress done q := by
  induction steps with
  | refl => exact ⟨progress, done, reached⟩
  | tail _ step ih =>
    obtain ⟨_, _, reached⟩ := ih
    exact reached.step independent step

/-- All jobs have come to their ends. -/
theorem Reached.finished (independent : Independent o files sources) {p : Pool}
    (reached : Reached o dryRun files sources progress done p) (finished : p.isFinished = true) :
    (p.results, p.files) = convertAll o dryRun none 0 sources files := by
  have each : ∀ taken ∈ progress, (Job.stage o dryRun files taken.1 taken.2).isFinished = true := by
    intro taken member
    rw [isFinished, reached.jobs, List.all_eq_true] at finished
    exact finished _ (List.mem_map_of_mem member)
  have order : done.Perm sources := by
    rw [List.perm_ext_iff_of_nodup reached.once independent.nodup]
    intro s
    rw [reached.ended s, ← reached.sources, List.mem_map]
    constructor
    · rintro ⟨n, member, -⟩
      exact ⟨(s, n), member, rfl⟩
    · rintro ⟨⟨s, n⟩, member, rfl⟩
      exact ⟨n, member, each _ member⟩
  rw [independent.convertAll_eq, ← independent.afterAll_perm order, ← reached.files, results,
    reached.jobs, ← reached.sources, List.map_map, List.map_map]
  congr 1
  apply List.map_congr_left
  intro taken member
  exact congrArg Job.result (Job.stage_of_isFinished (each taken member))

end Pool

/-- However the steps of independent conversions are interleaved, they come to an end, and the
results and the files are then those of converting one source after the other, which are those of
each source alone. A file that failed changes nothing, neither on the disk nor in the results of
others, and a batch returns what went wrong with the arguments and then with the sources, in
order. -/
theorem interleavings_agree (o : Options) (dryRun : Bool) {limit : Nat} (positive : 0 < limit)
    {files : Files} {sources : List Source} (independent : Independent o files sources) :
    (∀ p, Relation.ReflTransGen (Pool.Step o dryRun limit) (Pool.start sources files) p →
      (∃ q, Relation.ReflTransGen (Pool.Step o dryRun limit) p q ∧ q.isFinished = true) ∧
      (p.isFinished = true → (p.results, p.files) = convertAll o dryRun none 0 sources files)) ∧
    (convertAll o dryRun none 0 sources files).1 =
      sources.map (fun s => (Job.run o dryRun s files).1) ∧
    (∀ before s after, sources = before ++ s :: after →
      (Job.run o dryRun s files).1.action = some .failed →
      (Job.run o dryRun s files).2 = files ∧
      convertAll o dryRun none 0 (before ++ after) files =
        ((before ++ after).map (fun t => (Job.run o dryRun t files).1),
          (convertAll o dryRun none 0 sources files).2)) ∧
    ∀ paths, (expand o files paths).sources = sources →
      run o dryRun none paths files = ⟨⟨sources.map fun s => (Job.run o dryRun s files).1⟩,
        (expand o files paths).failures ++ sources.filterMap
        (fun s => (Job.run o dryRun s files).1.failure),
        (convertAll o dryRun none 0 sources files).2⟩ := by
  have alone (list : List Source) :
      list.map (fun s => (Job.stage o dryRun files s 3).result) =
        list.map (fun s => (Job.run o dryRun s files).1) := by
    apply List.map_congr_left
    intro s _
    rw [Job.run_eq]
  have whole : convertAll o dryRun none 0 sources files = _ := independent.convertAll_eq
  rw [alone] at whole
  refine ⟨?_, ?_, ?_, ?_⟩
  · intro p steps
    obtain ⟨progress, done, reached⟩ :=
      (Pool.Reached.start o dryRun files sources).steps independent steps
    exact ⟨Pool.exists_finished positive p, reached.finished independent⟩
  · rw [whole]
  · rintro before s after rfl failed
    have within : (before ++ after).Sublist (before ++ s :: after) :=
      (List.sublist_cons_self s after).append_left before
    have saves : ∀ w ∈ s.write? o dryRun files, files.Saves w := independent.saves_alone (by simp)
    rw [Job.run_of_saves saves] at failed ⊢
    have silent : s.write? o dryRun files = none := write?_of_failed saves failed
    refine ⟨by rw [silent]; rfl, ?_⟩
    rw [(independent.sublist within).convertAll_eq, alone, whole]
    simp [afterAll, silent]
  · rintro paths rfl
    rw [run, whole]
    simp [List.filterMap_map]

/-- Scripts of which one is missing, two at a time. -/
theorem interleavings_agree_scattered :
    ∃ q, Relation.ReflTransGen (Pool.Step ⟨.standard, [], false, []⟩ false 2) (Pool.start
        [⟨"s/a.sh", "s"⟩, ⟨"v/b.sh", "v"⟩, ⟨"s/ci/a.sh", "s"⟩, ⟨"u/a.sh", "u"⟩] scattered) q ∧
      q.isFinished = true ∧
      (q.results, q.files) = convertAll ⟨.standard, [], false, []⟩ false none 0
        [⟨"s/a.sh", "s"⟩, ⟨"v/b.sh", "v"⟩, ⟨"s/ci/a.sh", "s"⟩, ⟨"u/a.sh", "u"⟩] scattered := by
  have independent : Independent ⟨.standard, [], false, []⟩ scattered
      [⟨"s/a.sh", "s"⟩, ⟨"v/b.sh", "v"⟩, ⟨"s/ci/a.sh", "s"⟩, ⟨"u/a.sh", "u"⟩] := by
    refine ⟨Separate.of_apart (by decide) (by decide) (by decide) (by decide), ?_⟩
    · intro s member missing
      have place : s = ⟨"v/b.sh", "v"⟩ := by
        revert s
        decide
      subst place
      refine ⟨⟨[], ["v", "b.sh"], by decide, by decide, ⟨[], rfl, rfl⟩, ⟨_, rfl⟩, ?_⟩, by decide⟩
      simp only [List.mem_cons, List.not_mem_nil, or_false, forall_eq_or_imp, forall_eq]
      exact ⟨⟨⟨by decide, by decide, by decide, by decide⟩, by decide⟩,
        ⟨⟨by decide, by decide, by decide, by decide⟩, by decide⟩⟩
  obtain ⟨q, steps, finished⟩ := (interleavings_agree ⟨.standard, [], false, []⟩ false
    Nat.two_pos independent).1 _ .refl |>.1
  exact ⟨q, steps, finished,
    ((interleavings_agree ⟨.standard, [], false, []⟩ false Nat.two_pos independent).1 q steps).2
    finished⟩

end ShellToDeno.Batch
