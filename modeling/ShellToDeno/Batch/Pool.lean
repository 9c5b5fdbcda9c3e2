import ShellToDeno.Batch.Job

/-!
Files that are converted side by side. Jobs are started in the order of their sources, no more than
a limit run at a time, and any job that runs may take the next step. A run can be cancelled at any
moment.
-/
namespace ShellToDeno.Batch

/-- A job that finds its run cancelled before it looks at its input leaves an empty result. -/
def Job.leaveOut : Job → Job
  | .waiting _ => .finished .empty
  | job => job

/-- Jobs, of which the first ones have been started, and the files they share. -/
structure Pool where
  jobs : List Job
  started : Nat
  files : Files

namespace Pool

def start (sources : List Source) (files : Files) : Pool := ⟨sources.map .waiting, 0, files⟩

/-- How many jobs have been started and are not finished. -/
def running (p : Pool) : Nat := (p.jobs.take p.started).countP (!·.isFinished)

def isFinished (p : Pool) : Bool := p.jobs.all Job.isFinished

def results (p : Pool) : List FileResult := p.jobs.map Job.result

/-- The next job is started, or one that runs takes a step. -/
inductive Step (o : Options) (dryRun : Bool) (limit : Nat) : Pool → Pool → Prop
  | start (p : Pool) (left : p.started < p.jobs.length) (room : p.running < limit) :
      Step o dryRun limit p { p with started := p.started + 1 }
  | advance (before : List Job) (job : Job) (after : List Job) (started : Nat) (files : Files)
      (begun : before.length < started) (busy : job.isFinished = false) :
      Step o dryRun limit ⟨before ++ job :: after, started, files⟩
        ⟨before ++ (job.step o dryRun files).1 :: after, started, (job.step o dryRun files).2⟩

/-- The pool of a run that is cancelled now. Jobs that have not been started will find it
cancelled, and so do those of the started ones at the places in `late`, unless they have looked
at their input. -/
def cancel (p : Pool) (late : Nat → Bool) : Pool :=
  { p with jobs := p.jobs.mapIdx fun place job =>
      if place < p.started && !late place then job else job.leaveOut }

/-- A step, or the run is cancelled. -/
inductive Move (o : Options) (dryRun : Bool) (limit : Nat) : Pool → Pool → Prop
  | step {p q : Pool} (step : Step o dryRun limit p q) : Move o dryRun limit p q
  | cancel (p : Pool) (late : Nat → Bool) : Move o dryRun limit p (p.cancel late)

end Pool

end ShellToDeno.Batch
