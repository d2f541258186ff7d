import Mathlib.Data.List.Count
import Mathlib.Data.List.Induction
import Mathlib.Data.List.Nodup
import Mathlib.Data.List.Perm.Subperm
import SceneScript.Batch.Pool
import SceneScript.Proofs.Batch.InTurn

/-!
# Workers that share jobs

However the steps of the workers interleave, a pool does its jobs in some order, each at most once: no index is taken
twice, an index that was taken is held or its job is done, and a worker stops only at an index beyond the jobs.
When all have stopped, every job has been done once.

    Tracks lang jobs t p order → Tracks lang jobs t (p.step lang jobs w) (order ++ what w does)      (tracks_step)
    p.isDone → order is a permutation of the indices                                                 (perm_of_isDone)
    p.tree.IsSound → (p.run lang jobs schedule).tree.IsSound                                         (isSound_run)
-/

namespace SceneScript

namespace Pool

variable {lang : Language} {jobs : List Job} {t : FileTree} {p p' : Pool} {order schedule : List Nat} {w : Nat}

/-- What a worker is about to do. -/
def state? (p : Pool) (w : Nat) : Option Worker := p.workers[w]?.map Prod.fst

/-- The index of the job that a worker does in its next step. -/
def doing? (jobs : List Job) (p : Pool) (w : Nat) : Option Nat :=
  match p.state? w with
  | some (.holding index) => if index < jobs.length then some index else none
  | _ => none

/-- The indices of the jobs that are done in a schedule, in the order in which they are done. -/
def log (lang : Language) (jobs : List Job) : Pool → List Nat → List Nat
  | _, [] => []
  | p, w :: schedule => (p.doing? jobs w).toList ++ log lang jobs (p.step lang jobs w) schedule

/-- The jobs at some indices. -/
def jobsAt (jobs : List Job) (order : List Nat) : List Job := order.filterMap (jobs[·]?)

/-- No index is lost: those that were taken are held, each by one worker, or belong to `order`, or lie beyond the
jobs. -/
structure Accounts (jobs : List Job) (p : Pool) (order : List Nat) : Prop where
  nodup : order.Nodup
  done : ∀ i ∈ order, i < jobs.length ∧ i < p.next
  held : ∀ w i, p.state? w = some (.holding i) → i < p.next ∧ i ∉ order
  apart : ∀ w w' i, p.state? w = some (.holding i) → p.state? w' = some (.holding i) → w = w'
  cover : ∀ i, i < p.next → i < jobs.length → i ∈ order ∨ ∃ w, p.state? w = some (.holding i)
  stopped : ∀ w, p.state? w = some .stopped → jobs.length < p.next

/-- The pool has done the jobs at `order`, one after another. -/
structure Tracks (lang : Language) (jobs : List Job) (t : FileTree) (p : Pool) (order : List Nat) : Prop where
  accounts : Accounts jobs p order
  tree : p.tree = (Job.inTurn lang t (jobsAt jobs order)).1
  finished : (p.workers.flatMap Prod.snd).Perm (order.zip (Job.inTurn lang t (jobsAt jobs order)).2)

/-! ## One step -/

/-- A worker of `p` goes on to do something else in `p'`, with some more results. -/
structure Turn (p : Pool) (w : Nat) (old new : Worker) (more : List Finished) (p' : Pool) : Prop where
  length : p'.workers.length = p.workers.length
  worker : ∃ results, p.workers[w]? = some (old, results) ∧
    ∀ v, p'.workers[v]? = if w = v then some (new, results ++ more) else p.workers[v]?
  results : (p'.workers.flatMap Prod.snd).Perm (p.workers.flatMap Prod.snd ++ more)

theorem Turn.state {old new : Worker} {more : List Finished} (h : Turn p w old new more p') :
    p.state? w = some old ∧ ∀ v, p'.state? v = if w = v then some new else p.state? v := by
  obtain ⟨results, hold, hnew⟩ := h.worker
  refine ⟨by rw [state?, hold]; rfl, fun v => ?_⟩
  rw [state?, hnew, state?]
  split <;> rfl

theorem perm_flatMap_set {workers : List (Worker × List Finished)} {s : Worker} {results : List Finished}
    (h : workers[w]? = some (s, results)) (s' : Worker) (more : List Finished) :
    ((workers.set w (s', results ++ more)).flatMap Prod.snd).Perm (workers.flatMap Prod.snd ++ more) := by
  induction workers generalizing w with
  | nil => cases h
  | cons first workers ih =>
    cases w with
    | zero =>
      cases h
      simp only [List.set_cons_zero, List.flatMap_cons, List.append_assoc]
      exact List.perm_append_comm.append_left results
    | succ w =>
      simp only [List.set_cons_succ, List.flatMap_cons, List.append_assoc]
      exact (ih h).append_left first.2

theorem turn_set {old : Worker} {results : List Finished} (h : p.workers[w]? = some (old, results)) (new : Worker)
    (more : List Finished) (next : Nat) (tree : FileTree) :
    Turn p w old new more ⟨next, p.workers.set w (new, results ++ more), tree⟩ := by
  obtain ⟨hlt, -⟩ := List.getElem?_eq_some_iff.1 h
  refine ⟨by simp, ⟨results, h, fun v => ?_⟩, perm_flatMap_set h new more⟩
  rw [List.getElem?_set, if_pos hlt]

/-- What a step can do: nothing, take an index, stop, or do a job. -/
inductive Step (lang : Language) (jobs : List Job) (p : Pool) (w : Nat) (p' : Pool) : Prop where
  | rest (hstep : p' = p) (hw : ∀ s, p.state? w = some s → s = .stopped) (hdoing : p.doing? jobs w = none)
  | take (hturn : Turn p w .ready (.holding p.next) [] p') (hnext : p'.next = p.next + 1) (htree : p'.tree = p.tree)
      (hdoing : p.doing? jobs w = none)
  | stop (i : Nat) (hi : jobs.length ≤ i) (hturn : Turn p w (.holding i) .stopped [] p') (hnext : p'.next = p.next)
      (htree : p'.tree = p.tree) (hdoing : p.doing? jobs w = none)
  | work (i : Nat) (job : Job) (hjob : jobs[i]? = some job)
      (hturn : Turn p w (.holding i) .ready [(i, (job.run lang p.tree).2)] p') (hnext : p'.next = p.next)
      (htree : p'.tree = (job.run lang p.tree).1) (hdoing : p.doing? jobs w = some i)

theorem step_cases (lang : Language) (jobs : List Job) (p : Pool) (w : Nat) :
    Step lang jobs p w (p.step lang jobs w) := by
  cases hw : p.workers[w]? with
  | none => exact .rest (by simp [step, hw]) (by simp [state?, hw]) (by simp [doing?, state?, hw])
  | some worker =>
    rcases worker with ⟨_ | i | _, results⟩
    · have hstep : p.step lang jobs w = ⟨p.next + 1, p.workers.set w (.holding p.next, results ++ []), p.tree⟩ := by
        simp [step, hw]
      rw [hstep]
      exact .take (turn_set hw _ _ _ _) rfl rfl (by simp [doing?, state?, hw])
    · cases hjob : jobs[i]? with
      | none =>
        have hi : jobs.length ≤ i := List.getElem?_eq_none_iff.1 hjob
        have hstep : p.step lang jobs w = ⟨p.next, p.workers.set w (.stopped, results ++ []), p.tree⟩ := by
          simp [step, hw, hjob]
        rw [hstep]
        exact .stop i hi (turn_set hw _ _ _ _) rfl rfl (by simp [doing?, state?, hw, hi])
      | some job =>
        obtain ⟨hi, -⟩ := List.getElem?_eq_some_iff.1 hjob
        have hstep : p.step lang jobs w = ⟨p.next, p.workers.set w
            (.ready, results ++ [(i, (job.run lang p.tree).2)]), (job.run lang p.tree).1⟩ := by
          simp [step, hw, hjob]
        rw [hstep]
        exact .work i job hjob (turn_set hw _ _ _ _) rfl rfl (by simp [doing?, state?, hw, hi])
    · exact .rest (by simp [step, hw]) (by simp [state?, hw]) (by simp [doing?, state?, hw])

/-- **No step loses an index or takes one twice.** -/
theorem accounts_step (h : Accounts jobs p order) (hstep : Step lang jobs p w p') :
    Accounts jobs p' (order ++ (p.doing? jobs w).toList) := by
  obtain ⟨hnodup, hdone, hheld, hapart, hcover, hstopped⟩ := h
  cases hstep with
  | rest hstep hw hdoing =>
    rw [hstep, hdoing, Option.toList_none, List.append_nil]
    exact ⟨hnodup, hdone, hheld, hapart, hcover, hstopped⟩
  | take hturn hnext htree hdoing =>
    obtain ⟨hw, hstate⟩ := hturn.state
    rw [hdoing, Option.toList_none, List.append_nil]
    -- The worker held no index, and takes one that no one has had.
    have hunheld : ∀ v i, p.state? v = some (.holding i) → i ≠ p.next :=
      fun v i hv => Nat.ne_of_lt (hheld v i hv).1
    have hundone : p.next ∉ order := fun hmem => Nat.lt_irrefl _ (hdone _ hmem).2
    constructor <;> grind
  | stop i hi hturn hnext htree hdoing =>
    obtain ⟨hw, hstate⟩ := hturn.state
    rw [hdoing, Option.toList_none, List.append_nil]
    -- The index that is given up lies beyond the jobs, and so does the next one.
    have hbeyond : jobs.length < p.next := Nat.lt_of_le_of_lt hi (hheld w i hw).1
    constructor <;> grind
  | work i job hjob hturn hnext htree hdoing =>
    obtain ⟨hw, hstate⟩ := hturn.state
    obtain ⟨hi, -⟩ := List.getElem?_eq_some_iff.1 hjob
    rw [hdoing, Option.toList_some]
    -- The index passes from its only holder to those that are done.
    have hundone : i ∉ order := (hheld w i hw).2
    have hothers : ∀ v, p.state? v = some (.holding i) → v = w := fun v hv => hapart v w i hv hw
    constructor
    · exact List.nodup_append.2 ⟨hnodup, by simp, by grind⟩
    all_goals grind

theorem jobsAt_append (jobs : List Job) (order more : List Nat) :
    jobsAt jobs (order ++ more) = jobsAt jobs order ++ jobsAt jobs more := List.filterMap_append

theorem jobsAt_cons {i : Nat} {job : Job} (h : jobs[i]? = some job) (order : List Nat) :
    jobsAt jobs (i :: order) = job :: jobsAt jobs order := by
  rw [jobsAt, List.filterMap_cons, h, jobsAt]

theorem mem_of_mem_jobsAt {job : Job} (h : job ∈ jobsAt jobs order) : job ∈ jobs := by
  obtain ⟨i, -, hi⟩ := List.mem_filterMap.1 h
  exact List.mem_of_getElem? hi

theorem length_jobsAt (h : ∀ i ∈ order, i < jobs.length) : (jobsAt jobs order).length = order.length := by
  induction order with
  | nil => rfl
  | cons i order ih =>
    rw [jobsAt_cons (List.getElem?_eq_getElem (h i List.mem_cons_self)), List.length_cons, List.length_cons,
      ih fun k hk => h k (List.mem_cons_of_mem _ hk)]

theorem Tracks.length_order (h : Tracks lang jobs t p order) :
    order.length = (Job.inTurn lang t (jobsAt jobs order)).2.length := by
  rw [Job.length_inTurn, length_jobsAt fun i hi => (h.accounts.done i hi).1]

/-- **A step of a pool does one more of its jobs, or none.** -/
theorem tracks_step (h : Tracks lang jobs t p order) (w : Nat) :
    Tracks lang jobs t (p.step lang jobs w) (order ++ (p.doing? jobs w).toList) := by
  have hstep := step_cases lang jobs p w
  have haccounts := accounts_step h.accounts hstep
  cases hstep with
  | rest hstep hw hdoing =>
    rw [hstep, hdoing, Option.toList_none, List.append_nil]
    exact h
  | take hturn hnext htree hdoing =>
    rw [hdoing, Option.toList_none, List.append_nil] at haccounts ⊢
    refine ⟨haccounts, htree.trans h.tree, ?_⟩
    exact (hturn.results.trans (by rw [List.append_nil])).trans h.finished
  | stop i hi hturn hnext htree hdoing =>
    rw [hdoing, Option.toList_none, List.append_nil] at haccounts ⊢
    refine ⟨haccounts, htree.trans h.tree, ?_⟩
    exact (hturn.results.trans (by rw [List.append_nil])).trans h.finished
  | work i job hjob hturn hnext htree hdoing =>
    rw [hdoing, Option.toList_some] at haccounts ⊢
    have hjobs : jobsAt jobs (order ++ [i]) = jobsAt jobs order ++ [job] := by
      rw [jobsAt_append, jobsAt_cons hjob]
      rfl
    refine ⟨haccounts, ?_, ?_⟩
    · rw [htree, hjobs, Job.inTurn_append, h.tree]
      rfl
    · rw [hjobs, Job.inTurn_append, List.zip_append h.length_order, ← h.tree]
      exact hturn.results.trans (h.finished.append_right _)

/-! ## Whole runs -/

theorem tracks_start (lang : Language) (jobs : List Job) (wanted : Nat) (t : FileTree) :
    Tracks lang jobs t (start jobs wanted t) [] := by
  have hready : ∀ w s, (start jobs wanted t).state? w = some s → s = .ready := by
    intro w s hs
    rw [state?, start, List.getElem?_replicate] at hs
    split at hs
    · cases hs
      rfl
    · cases hs
  refine ⟨⟨List.nodup_nil, by simp, ?_, ?_, ?_, ?_⟩, rfl, ?_⟩
  · intro w i hw
    cases hready w _ hw
  · intro w w' i hw
    cases hready w _ hw
  · intro i hi
    exact absurd hi (Nat.not_lt_zero i)
  · intro w hw
    cases hready w _ hw
  · have hnone : (start jobs wanted t).workers.flatMap Prod.snd = [] := by
      rw [List.flatMap_eq_nil_iff]
      intro worker hworker
      rw [List.eq_of_mem_replicate hworker]
    rw [hnone]
    exact .refl _

theorem tracks_run (h : Tracks lang jobs t p order) (schedule : List Nat) :
    Tracks lang jobs t (p.run lang jobs schedule) (order ++ log lang jobs p schedule) := by
  induction schedule generalizing p order with
  | nil =>
    rw [log, List.append_nil]
    exact h
  | cons w schedule ih =>
    rw [log, ← List.append_assoc]
    exact ih (tracks_step h w)

theorem length_workers_step (lang : Language) (jobs : List Job) (p : Pool) (w : Nat) :
    (p.step lang jobs w).workers.length = p.workers.length := by
  cases step_cases lang jobs p w with
  | rest hstep hw hdoing => rw [hstep]
  | take hturn hnext htree hdoing => exact hturn.length
  | stop i hi hturn hnext htree hdoing => exact hturn.length
  | work i job hjob hturn hnext htree hdoing => exact hturn.length

theorem length_workers_run (lang : Language) (jobs : List Job) (p : Pool) (schedule : List Nat) :
    (p.run lang jobs schedule).workers.length = p.workers.length := by
  induction schedule generalizing p with
  | nil => rfl
  | cons w schedule ih => exact (ih _).trans (length_workers_step lang jobs p w)

theorem isSound_step (lang : Language) (jobs : List Job) (h : p.tree.IsSound) (w : Nat) :
    (p.step lang jobs w).tree.IsSound := by
  cases step_cases lang jobs p w with
  | rest hstep hw hdoing =>
    rw [hstep]
    exact h
  | take hturn hnext htree hdoing => rwa [htree]
  | stop i hi hturn hnext htree hdoing => rwa [htree]
  | work i job hjob hturn hnext htree hdoing =>
    rw [htree]
    exact Job.isSound_run lang h job

/-- **A pool leaves a disk a disk**, whenever it is stopped. -/
theorem isSound_run (lang : Language) (jobs : List Job) (h : p.tree.IsSound) (schedule : List Nat) :
    (p.run lang jobs schedule).tree.IsSound := by
  induction schedule generalizing p with
  | nil => exact h
  | cons w schedule ih => exact ih (isSound_step lang jobs h w)

theorem isDone_iff : p.isDone = true ↔ ∀ w < p.workers.length, p.state? w = some .stopped := by
  rw [isDone, List.all_eq_true]
  constructor
  · intro h w hw
    rw [state?, List.getElem?_eq_getElem hw, Option.map_some]
    simpa using h _ (List.getElem_mem hw)
  · intro h worker hworker
    obtain ⟨w, hw, rfl⟩ := List.getElem_of_mem hworker
    have := h w hw
    rw [state?, List.getElem?_eq_getElem hw, Option.map_some, Option.some_inj] at this
    simpa using this

/-- **When all workers have stopped, every job has been done once.** -/
theorem Accounts.perm_of_isDone (h : Accounts jobs p order) (hmanned : 0 < p.workers.length) (hdone : p.isDone = true) :
    order.Perm (List.range jobs.length) := by
  rw [isDone_iff] at hdone
  refine (List.perm_ext_iff_of_nodup h.nodup List.nodup_range).2 fun i => ?_
  rw [List.mem_range]
  refine ⟨fun hi => (h.done i hi).1, fun hi => ?_⟩
  have hnext := h.stopped 0 (hdone 0 hmanned)
  rcases h.cover i (by omega) hi with hmem | ⟨w, hw⟩
  · exact hmem
  · have hlt : w < p.workers.length := by
      by_contra hge
      rw [state?, List.getElem?_eq_none (Nat.not_lt.1 hge)] at hw
      cases hw
    rw [hdone w hlt] at hw
    cases hw

theorem manned_run (lang : Language) (jobs : List Job) (wanted : Nat) (t : FileTree) (schedule : List Nat) :
    0 < ((start jobs wanted t).run lang jobs schedule).workers.length := by
  rw [length_workers_run, start, List.length_replicate, workerCount]
  omega

/-- The results are in the order of the jobs. -/
theorem Tracks.map_fst_results (h : Tracks lang jobs t p order) (horder : order.Perm (List.range jobs.length)) :
    p.results.map Prod.fst = List.range jobs.length := by
  have hperm : (p.results.map Prod.fst).Perm (List.range jobs.length) := by
    have hresults : p.results.Perm (order.zip (Job.inTurn lang t (jobsAt jobs order)).2) :=
      (List.mergeSort_perm _ _).trans h.finished
    have hfst := hresults.map Prod.fst
    rw [List.map_fst_zip (Nat.le_of_eq h.length_order)] at hfst
    exact hfst.trans horder
  have hsorted : p.results.Pairwise fun a b => a.1 ≤ b.1 := by
    refine (List.pairwise_mergeSort (fun a b c => ?_) (fun a b => ?_) _).imp fun {a b} hab => by simpa using hab
    · simpa using Nat.le_trans
    · simpa using Nat.le_total a.1 b.1
  refine hperm.eq_of_pairwise (fun a b _ _ => Nat.le_antisymm) (List.pairwise_map.2 hsorted) ?_
  exact List.pairwise_lt_range.imp Nat.le_of_lt

/-- A result belongs to the job at its index. -/
theorem Tracks.mem_results (h : Tracks lang jobs t p order) {i : Nat} {result : Except JobFault Compiled}
    (hmem : (i, result) ∈ p.results) :
    ∃ job, jobs[i]? = some job ∧
      (job, result) ∈ (jobsAt jobs order).zip (Job.inTurn lang t (jobsAt jobs order)).2 := by
  have hzip : (i, result) ∈ order.zip (Job.inTurn lang t (jobsAt jobs order)).2 :=
    h.finished.mem_iff.1 (List.mem_mergeSort.1 hmem)
  have hinside : ∀ i ∈ order, i < jobs.length := fun i hi => (h.accounts.done i hi).1
  generalize (Job.inTurn lang t (jobsAt jobs order)).2 = results at hzip
  clear h hmem
  induction order generalizing results with
  | nil => cases hzip
  | cons k order ih =>
    cases results with
    | nil => cases hzip
    | cons first results =>
      have hk := List.getElem?_eq_getElem (hinside k List.mem_cons_self)
      rw [jobsAt_cons hk, List.zip_cons_cons]
      rw [List.zip_cons_cons, List.mem_cons] at hzip
      rcases hzip with heq | hzip
      · cases heq
        exact ⟨_, hk, List.mem_cons_self⟩
      · obtain ⟨job, hjob, hmem⟩ := ih (fun i hi => hinside i (List.mem_cons_of_mem _ hi)) results hzip
        exact ⟨job, hjob, List.mem_cons_of_mem _ hmem⟩

/-! ## Turns -/

/-- The steps that a worker has made, by what it has done and is about to do. -/
def stepsOf : Worker × List Finished → Nat
  | (.ready, results) => 2 * results.length
  | (.holding _, results) => 2 * results.length + 1
  | (.stopped, results) => 2 * results.length + 2

/-- A worker that has not stopped has made all the steps that a schedule gives to it. -/
def Keeps (p : Pool) (schedule : List Nat) : Prop :=
  ∀ w worker, p.workers[w]? = some worker → worker.1 = .stopped ∨ stepsOf worker = schedule.count w

theorem Turn.keeps {old new : Worker} {more : List Finished} (hturn : Turn p w old new more p') (h : Keeps p schedule)
    (hold : old ≠ .stopped) (hsteps : ∀ results, stepsOf (new, results ++ more) = stepsOf (old, results) + 1) :
    Keeps p' (schedule ++ [w]) := by
  intro v worker hv
  obtain ⟨results, hbefore, hafter⟩ := hturn.worker
  rw [hafter] at hv
  rw [List.count_append, List.count_singleton]
  split at hv
  · rename_i heq
    subst heq
    cases hv
    have hcount := (h w _ hbefore).resolve_left hold
    right
    rw [hsteps, hcount, beq_self_eq_true, if_pos rfl]
  · rename_i hne
    rw [if_neg (by simpa using hne), Nat.add_zero]
    exact h v worker hv

theorem keeps_step (h : Keeps p schedule) (w : Nat) : Keeps (p.step lang jobs w) (schedule ++ [w]) := by
  cases step_cases lang jobs p w with
  | rest hstep hw hdoing =>
    rw [hstep]
    intro v worker hv
    by_cases heq : w = v
    · subst heq
      exact .inl (hw _ (by rw [state?, hv]; rfl))
    · rw [List.count_append, List.count_singleton, if_neg (by simpa using heq), Nat.add_zero]
      exact h v worker hv
  | take hturn hnext htree hdoing =>
    exact hturn.keeps h (by simp) fun results => by simp [stepsOf]
  | stop i hi hturn hnext htree hdoing =>
    exact hturn.keeps h (by simp) fun results => by simp [stepsOf]
  | work i job hjob hturn hnext htree hdoing =>
    refine hturn.keeps h (by simp) fun results => ?_
    simp only [stepsOf, List.length_append, List.length_singleton]
    omega

theorem keeps_run (lang : Language) (jobs : List Job) (wanted : Nat) (t : FileTree) (schedule : List Nat) :
    Keeps ((start jobs wanted t).run lang jobs schedule) schedule := by
  induction schedule using List.reverseRecOn with
  | nil =>
    intro w worker hw
    rw [run, List.foldl_nil, start, List.getElem?_replicate] at hw
    split at hw
    · cases hw
      exact .inr rfl
    · cases hw
  | append_singleton schedule w ih =>
    rw [run, List.foldl_concat]
    exact keeps_step ih w

/-- **Workers that get enough turns come to an end**: with twice as many turns as jobs, and two more, every one has
stopped. -/
theorem isDone_of_count_le {wanted : Nat}
    (h : ∀ w < workerCount jobs wanted, 2 * (jobs.length + 1) ≤ schedule.count w) :
    ((start jobs wanted t).run lang jobs schedule).isDone = true := by
  have htracks := tracks_run (tracks_start lang jobs wanted t) schedule
  have hkeeps := keeps_run lang jobs wanted t schedule
  have hlength : ((start jobs wanted t).run lang jobs schedule).workers.length = workerCount jobs wanted := by
    rw [length_workers_run, start, List.length_replicate]
  generalize (start jobs wanted t).run lang jobs schedule = p at *
  rw [isDone_iff]
  intro w hw
  rw [hlength] at hw
  obtain ⟨worker, hworker⟩ : ∃ worker, p.workers[w]? = some worker :=
    ⟨_, List.getElem?_eq_getElem (hlength ▸ hw)⟩
  rw [state?, hworker, Option.map_some, Option.some_inj]
  by_contra hactive
  -- A worker that is still active has the results of more jobs than there are.
  have hsteps := (hkeeps w worker hworker).resolve_left hactive
  have hfew : worker.2.length ≤ jobs.length := by
    have hall : (p.workers.flatMap Prod.snd).length ≤ jobs.length := by
      rw [htracks.finished.length_eq, List.length_zip, ← htracks.length_order, Nat.min_self]
      have hsub : List.Subset _ (List.range jobs.length) :=
        fun i hi => List.mem_range.2 (htracks.accounts.done i hi).1
      simpa using (htracks.accounts.nodup.subperm hsub).length_le
    have hpart : worker.2.Sublist (p.workers.flatMap Prod.snd) := by
      rw [List.flatMap_def]
      exact List.sublist_flatten_of_mem (List.mem_map.2 ⟨worker, List.mem_of_getElem? hworker, rfl⟩)
    exact Nat.le_trans hpart.length_le hall
  have henough := h w hw
  obtain ⟨_ | i | _, results⟩ := worker
  · simp only [stepsOf] at hsteps hfew
    omega
  · simp only [stepsOf] at hsteps hfew
    omega
  · exact hactive rfl

theorem isDone_turns (lang : Language) (jobs : List Job) (wanted : Nat) (t : FileTree) :
    ((start jobs wanted t).run lang jobs (turns jobs wanted)).isDone = true := by
  refine isDone_of_count_le fun w hw => ?_
  have hround : (List.range (workerCount jobs wanted)).count w = 1 :=
    List.count_eq_one_of_mem List.nodup_range (List.mem_range.2 hw)
  have hcount : (turns jobs wanted).count w = 2 * (jobs.length + 1) := by
    rw [turns, List.count_flatten, List.map_replicate, hround, List.sum_replicate_nat, Nat.mul_one]
  exact Nat.le_of_eq hcount.symm

end Pool

end SceneScript
