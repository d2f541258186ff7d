import SceneScript.Batch.Job

/-!
# Pools of workers

The jobs of a batch are shared by workers.  A worker takes the next index from a counter that all share, does
the job at that index and comes back for another, until an index lies beyond the jobs.  Taking an index and
doing a job are steps of their own, and the steps of the workers may interleave in any way.  The report
lists the results in the order of the jobs.
-/

namespace SceneScript

/-- What a worker is about to do. -/
inductive Worker where
  /-- Take the next index. -/
  | ready
  /-- Do the job at an index that it has taken. -/
  | holding (index : Nat)
  | stopped
deriving DecidableEq

/-- A result and the index of its job. -/
abbrev Finished := Nat × Except JobFault Compiled

/-- Workers at work on a file tree, each with the results it has. -/
structure Pool where
  next : Nat
  workers : List (Worker × List Finished)
  tree : FileTree

namespace Pool

/-- How many workers start when `wanted` are asked for: at least one, and no more than there are jobs. -/
def workerCount (jobs : List Job) (wanted : Nat) : Nat := max 1 (min wanted (max 1 jobs.length))

def start (jobs : List Job) (wanted : Nat) (t : FileTree) : Pool :=
  ⟨0, List.replicate (workerCount jobs wanted) (.ready, []), t⟩

/-- One step of the worker `w`; one that has stopped, or does not exist, does nothing. -/
def step (lang : Language) (jobs : List Job) (p : Pool) (w : Nat) : Pool :=
  match p.workers[w]? with
  | some (.ready, done) =>
    { p with next := p.next + 1, workers := p.workers.set w (.holding p.next, done) }
  | some (.holding index, done) =>
    match jobs[index]? with
    | none => { p with workers := p.workers.set w (.stopped, done) }
    | some job =>
      let (t, result) := job.run lang p.tree
      { p with tree := t, workers := p.workers.set w (.ready, done ++ [(index, result)]) }
  | _ => p

/-- The pool after a schedule, which lists the worker of each step. -/
def run (lang : Language) (jobs : List Job) (p : Pool) (schedule : List Nat) : Pool :=
  schedule.foldl (step lang jobs) p

/-- Whether no worker has anything left to do. -/
def isDone (p : Pool) : Bool := p.workers.all fun w => w.1 = .stopped

/-- The results in the order of the jobs. -/
def results (p : Pool) : List Finished :=
  (p.workers.flatMap Prod.snd).mergeSort fun a b => a.1 ≤ b.1

/-- The schedule in which the workers take turns, long enough for all jobs. -/
def turns (jobs : List Job) (wanted : Nat) : List Nat :=
  (List.replicate (2 * (jobs.length + 1)) (List.range (workerCount jobs wanted))).flatten

end Pool

/-- The scripts that were compiled, with the warnings on them, and those that were not. -/
structure Report where
  succeeded : List Path
  failed : List (Path × JobFault)
  warnings : List (Path × String)
deriving DecidableEq

namespace Report

def empty : Report := ⟨[], [], []⟩

/-- The report with one more result at its end. -/
def add (r : Report) (source : Path) : Except JobFault Compiled → Report
  | .ok compiled =>
    { r with
      succeeded := r.succeeded ++ [source]
      warnings := r.warnings ++ compiled.warnings.map (source, ·) }
  | .error fault => { r with failed := r.failed ++ [(source, fault)] }

/-- The report on the results of a pool. -/
def ofResults (jobs : List Job) (results : List Finished) : Report :=
  results.foldl (fun r f =>
    match jobs[f.1]? with
    | some job => r.add job.source f.2
    | none => r) empty

end Report

/-- Does the jobs with the workers of a pool. -/
def runJobs (lang : Language) (jobs : List Job) (wanted : Nat) (t : FileTree) :
    FileTree × Report :=
  let p := (Pool.start jobs wanted t).run lang jobs (Pool.turns jobs wanted)
  (p.tree, Report.ofResults jobs p.results)

end SceneScript
