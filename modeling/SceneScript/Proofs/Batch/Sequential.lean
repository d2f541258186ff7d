import Mathlib.Data.List.InsertIdx
import Mathlib.Data.List.Perm.Basic
import SceneScript.Proofs.Batch.Pool

/-!
# A pool works as one worker would

Whatever the number of workers and however their steps interleave, when all have stopped every job has been done once,
and the report lists every script once, in the order of the jobs.  If the jobs do not meddle with each other, the
files and the report are those of doing the jobs one after another.  That their targets are apart is not enough for
this: a way that turns back in a folder that another job makes leads on only after that job.

    p.isDone → Accounted jobs p log ∧ (… → Sequential lang jobs t p)      (accounted_and_sequential)
-/

namespace SceneScript

variable {lang : Language} {jobs : List Job} {t : FileTree}

/-! ## Reports -/

namespace Report

/-- The report on the outcomes of all jobs, in their order. -/
def ofOutcomes (jobs : List Job) (outcomes : List (Except JobFault Compiled)) : Report :=
  (jobs.zip outcomes).foldl (fun r q => r.add q.1.source q.2) empty

/-- The sources of the jobs of some kind. -/
def sources (kind : Option Compiled → Bool) (results : List (Job × Option Compiled)) : List Path :=
  (results.filter fun q => kind q.2).map fun q => q.1.source

/-- The faults of the jobs, each with its source. -/
def faults (results : List (Job × Except JobFault Compiled)) : List (Path × JobFault) :=
  results.flatMap fun q =>
    match q.2 with
    | .error fault => [(q.1.source, fault)]
    | .ok _ => []

/-- The warnings of the jobs, each with its source. -/
def allWarnings (results : List (Job × Option Compiled)) : List (Path × String) :=
  results.flatMap fun q => q.2.elim [] fun compiled => compiled.warnings.map (q.1.source, ·)

theorem foldl_add (qs : List (Job × Except JobFault Compiled)) (r : Report) :
    (qs.foldl (fun r q => r.add q.1.source q.2) r).succeeded =
        r.succeeded ++ sources Option.isSome (qs.map fun q => (q.1, q.2.toOption)) ∧
      (qs.foldl (fun r q => r.add q.1.source q.2) r).failed = r.failed ++ faults qs ∧
      (qs.foldl (fun r q => r.add q.1.source q.2) r).warnings =
        r.warnings ++ allWarnings (qs.map fun q => (q.1, q.2.toOption)) := by
  induction qs generalizing r with
  | nil => simp [sources, faults, allWarnings]
  | cons q qs ih =>
    obtain ⟨job, fault | compiled⟩ := q
    · obtain ⟨hs, hf, hw⟩ := ih (r.add job.source (.error fault))
      rw [List.foldl_cons, hs, hf, hw]
      simp [add, sources, faults, allWarnings, Except.toOption]
    · obtain ⟨hs, hf, hw⟩ := ih (r.add job.source (.ok compiled))
      rw [List.foldl_cons, hs, hf, hw]
      simp [add, sources, faults, allWarnings, Except.toOption]

/-- Which scripts fail hangs on the programs only. -/
theorem map_fst_faults (qs : List (Job × Except JobFault Compiled)) :
    (faults qs).map Prod.fst = sources Option.isNone (qs.map fun q => (q.1, q.2.toOption)) := by
  induction qs with
  | nil => rfl
  | cons q qs ih =>
    rw [faults, List.flatMap_cons, List.map_append, ← faults, ih]
    obtain ⟨job, fault | compiled⟩ := q
    · simp [sources, Except.toOption]
    · simp [sources, Except.toOption]

theorem zip_toOption (jobs : List Job) (outcomes : List (Except JobFault Compiled)) :
    (jobs.zip outcomes).map (fun q => (q.1, q.2.toOption)) = jobs.zip (outcomes.map Except.toOption) :=
  List.zip_map_right.symm

/-- What is listed for the outcomes of all jobs. -/
theorem ofOutcomes_eq (jobs : List Job) (outcomes : List (Except JobFault Compiled)) :
    (ofOutcomes jobs outcomes).succeeded = sources Option.isSome (jobs.zip (outcomes.map Except.toOption)) ∧
      (ofOutcomes jobs outcomes).failed = faults (jobs.zip outcomes) ∧
      (ofOutcomes jobs outcomes).warnings = allWarnings (jobs.zip (outcomes.map Except.toOption)) := by
  rw [← zip_toOption]
  exact foldl_add (jobs.zip outcomes) empty

theorem map_fst_failed (jobs : List Job) (outcomes : List (Except JobFault Compiled)) :
    (ofOutcomes jobs outcomes).failed.map Prod.fst =
      sources Option.isNone (jobs.zip (outcomes.map Except.toOption)) := by
  rw [(ofOutcomes_eq jobs outcomes).2.1, map_fst_faults, zip_toOption]

/-- Every script is listed once, as compiled or as not. -/
theorem perm_sources (results : List (Job × Option Compiled)) :
    (sources Option.isSome results ++ sources Option.isNone results).Perm ((results.map Prod.fst).map Job.source) := by
  have hnot : ∀ q : Job × Option Compiled, q.2.isNone = !q.2.isSome := fun q => by cases q.2 <;> rfl
  simp only [sources, hnot, ← List.map_append, List.map_map]
  exact (List.filter_append_perm _ _).map _

/-- Results for the jobs behind some others, in their order. -/
theorem foldl_of_indices {rest pre : List Job} {results : List Finished}
    (h : results.map Prod.fst = List.range' pre.length rest.length) (r : Report) :
    results.foldl (fun r f => ((pre ++ rest)[f.1]?).elim r fun job => r.add job.source f.2) r =
      (rest.zip (results.map Prod.snd)).foldl (fun r q => r.add q.1.source q.2) r := by
  induction rest generalizing pre results r with
  | nil =>
    obtain rfl : results = [] := by simpa using h
    rfl
  | cons job rest ih =>
    cases results with
    | nil => simp [List.range'_succ] at h
    | cons first results =>
      rw [List.length_cons, List.range'_succ, List.map_cons, List.cons.injEq] at h
      have hjob : (pre ++ job :: rest)[first.1]? = some job := by simp [h.1]
      have hassoc : pre ++ job :: rest = (pre ++ [job]) ++ rest := by simp
      rw [List.foldl_cons, hjob, Option.elim_some, List.map_cons, List.zip_cons_cons, List.foldl_cons, hassoc]
      exact ih (by simpa using h.2) _

/-- Results in the order of the jobs are reported in that order. -/
theorem ofResults_eq {results : List Finished} (h : results.map Prod.fst = List.range jobs.length) :
    ofResults jobs results = ofOutcomes jobs (results.map Prod.snd) := by
  have hfold : ofResults jobs results =
      results.foldl (fun r f => (([] ++ jobs)[f.1]?).elim r fun job => r.add job.source f.2) empty := by
    unfold ofResults
    congr 1
    funext r f
    rw [List.nil_append]
    cases jobs[f.1]? <;> rfl
  rw [List.range_eq_range'] at h
  rw [hfold, ofOutcomes, foldl_of_indices h]

end Report

/-! ## What a pool has done -/

namespace Pool

variable {p : Pool} {order schedule : List Nat}

/-- Every job was done once, and the report lists every script once, in the order of the jobs, with its program's
warnings or with its fault. -/
structure Accounted (jobs : List Job) (p : Pool) (log : List Nat) : Prop where
  once : log.Perm (List.range jobs.length)
  results : p.results.map Prod.fst = List.range jobs.length
  succeeded : (Report.ofResults jobs p.results).succeeded =
    Report.sources Option.isSome (jobs.zip (p.results.map fun f => f.2.toOption))
  failed : (Report.ofResults jobs p.results).failed = Report.faults (jobs.zip (p.results.map Prod.snd))
  warnings : (Report.ofResults jobs p.results).warnings =
    Report.allWarnings (jobs.zip (p.results.map fun f => f.2.toOption))
  listed : ((Report.ofResults jobs p.results).succeeded ++ (Report.ofResults jobs p.results).failed.map Prod.fst).Perm
    (jobs.map Job.source)

/-- The files and the report are those of the jobs done one after another.  What a job failed for is the same, too,
unless it hangs on the folders that another job makes. -/
structure Sequential (lang : Language) (jobs : List Job) (t : FileTree) (p : Pool) : Prop where
  files : ∀ l, p.tree.find? l = (Job.inTurn lang t jobs).1.find? l
  succeeded : (Report.ofResults jobs p.results).succeeded =
    (Report.ofOutcomes jobs (Job.inTurn lang t jobs).2).succeeded
  failed : (Report.ofResults jobs p.results).failed.map Prod.fst =
    (Report.ofOutcomes jobs (Job.inTurn lang t jobs).2).failed.map Prod.fst
  warnings : (Report.ofResults jobs p.results).warnings =
    (Report.ofOutcomes jobs (Job.inTurn lang t jobs).2).warnings
  report : Job.Undisturbed t jobs →
    Report.ofResults jobs p.results = Report.ofOutcomes jobs (Job.inTurn lang t jobs).2
  /-- A job that succeeds leaves at its target the program of its script. -/
  saved : ∀ i compiled, (i, .ok compiled) ∈ p.results → ∃ job, jobs[i]? = some job ∧
    t.compileAt lang job.source = .ok compiled ∧ p.tree.lookup? job.target = some (Job.saved compiled)
  /-- So every script that is reported as compiled has its program at the target of its job. -/
  reported : ∀ source ∈ (Report.ofResults jobs p.results).succeeded, ∃ job ∈ jobs, job.source = source ∧
    ∃ compiled, t.compileAt lang source = .ok compiled ∧ p.tree.lookup? job.target = some (Job.saved compiled)
  /-- A job whose script cannot be compiled might as well be missing. -/
  unaffected : ∀ i job fault, jobs[i]? = some job → t.compileAt lang job.source = .error fault →
    (∀ l, job.target.place? = some l → p.tree.find? l = t.find? l) ∧
    (∀ l, p.tree.find? l = (Job.inTurn lang t (jobs.eraseIdx i)).1.find? l) ∧
    (p.results.map fun f => f.2.toOption).eraseIdx i =
      (Job.inTurn lang t (jobs.eraseIdx i)).2.map Except.toOption ∧
    (Job.Undisturbed t jobs → (p.results.map Prod.snd).eraseIdx i = (Job.inTurn lang t (jobs.eraseIdx i)).2)

theorem Tracks.accounted (h : Tracks lang jobs t p order) (horder : order.Perm (List.range jobs.length)) :
    Accounted jobs p order := by
  have hresults := h.map_fst_results horder
  have hreport := Report.ofResults_eq hresults
  have hlength : p.results.length = jobs.length := by simpa using congrArg List.length hresults
  have htoOption : (p.results.map fun f => f.2.toOption) = (p.results.map Prod.snd).map Except.toOption := by
    rw [List.map_map]
    rfl
  obtain ⟨hs, hf, hw⟩ := Report.ofOutcomes_eq jobs (p.results.map Prod.snd)
  refine ⟨horder, hresults, ?_, ?_, ?_, ?_⟩
  · rw [hreport, htoOption, hs]
  · rw [hreport, hf]
  · rw [hreport, htoOption, hw]
  · rw [hreport, hs, Report.map_fst_failed]
    have hperm := Report.perm_sources (jobs.zip ((p.results.map Prod.snd).map Except.toOption))
    rwa [List.map_fst_zip (by simp [hlength])] at hperm

/-- What holds of all results that are programs holds of all scripts that are reported as compiled. -/
theorem Accounted.of_mem_succeeded (h : Accounted jobs p order) {P : Job → Compiled → Prop}
    (hprograms : ∀ i compiled, (i, .ok compiled) ∈ p.results → ∃ job, jobs[i]? = some job ∧ P job compiled)
    {source : Path} (hmem : source ∈ (Report.ofResults jobs p.results).succeeded) :
    ∃ job ∈ jobs, job.source = source ∧ ∃ compiled, P job compiled := by
  rw [h.succeeded, Report.sources] at hmem
  obtain ⟨⟨job, program⟩, hlisted, rfl⟩ := List.mem_map.1 hmem
  obtain ⟨hzip, hsome⟩ := List.mem_filter.1 hlisted
  obtain ⟨compiled, rfl⟩ := Option.isSome_iff_exists.1 hsome
  obtain ⟨i, hi⟩ := List.mem_iff_getElem?.1 hzip
  rw [List.getElem?_zip_eq_some, List.getElem?_map, Option.map_eq_some_iff] at hi
  obtain ⟨hjob, ⟨index, result⟩, hresult, hprogram⟩ := hi
  -- The results stand at the indices of their jobs.
  have hindex : (p.results.map Prod.fst)[i]? = some index := by rw [List.getElem?_map, hresult, Option.map_some]
  obtain rfl : i = index := by
    rw [h.results, List.getElem?_eq_some_iff] at hindex
    simpa using hindex.2
  cases result with
  | error fault => cases hprogram
  | ok compiled' =>
    cases hprogram
    obtain ⟨job', hjob', hP⟩ := hprograms i compiled (List.mem_of_getElem? hresult)
    obtain rfl : job' = job := Option.some.inj (hjob'.symm.trans hjob)
    exact ⟨job', List.mem_of_getElem? hjob, rfl, compiled, hP⟩

theorem map_range_getElem? (jobs : List Job) : (List.range jobs.length).map (jobs[·]?) = jobs.map some := by
  refine List.ext_getElem (by simp) fun i hi hi' => ?_
  simp at hi
  simp [hi]

theorem perm_jobsAt (h : order.Perm (List.range jobs.length)) : (jobsAt jobs order).Perm jobs := by
  have hall : jobsAt jobs (List.range jobs.length) = jobs := by
    have hmap : jobsAt jobs (List.range jobs.length) = ((List.range jobs.length).map (jobs[·]?)).filterMap id := by
      rw [List.filterMap_map]
      rfl
    rw [hmap, map_range_getElem?, List.filterMap_map]
    exact List.filterMap_some
  have hperm : (jobsAt jobs order).Perm (jobsAt jobs (List.range jobs.length)) := h.filterMap _
  rwa [hall] at hperm

theorem eq_of_mem_zip {α β γ : Type} {f : α → γ} {g : β → γ} {xs : List α} {ys : List β} (h : ys.map g = xs.map f)
    {x : α} {y : β} (hmem : (x, y) ∈ xs.zip ys) : g y = f x := by
  induction xs generalizing ys with
  | nil => cases hmem
  | cons a xs ih =>
    cases ys with
    | nil => cases hmem
    | cons b ys =>
      rw [List.map_cons, List.map_cons, List.cons.injEq] at h
      rw [List.zip_cons_cons, List.mem_cons] at hmem
      rcases hmem with heq | hmem
      · cases heq
        exact h.1
      · exact ih h.2 hmem

/-- Results that hang on the job alone stand in the order of the jobs. -/
theorem Tracks.map_results {γ : Type} (h : Tracks lang jobs t p order) (horder : order.Perm (List.range jobs.length))
    {g : Except JobFault Compiled → γ} {f : Job → γ}
    (hresults : (Job.inTurn lang t (jobsAt jobs order)).2.map g = (jobsAt jobs order).map f) :
    p.results.map (fun r => g r.2) = jobs.map f := by
  have heach : p.results.map (fun r => some (g r.2)) = p.results.map fun r => (jobs[r.1]?).map f := by
    refine List.map_congr_left fun r hr => ?_
    obtain ⟨job, hjob, hmem⟩ := h.mem_results hr
    rw [hjob, Option.map_some, eq_of_mem_zip hresults hmem]
  have hall : p.results.map (fun r => (jobs[r.1]?).map f) = (jobs.map f).map some := by
    calc p.results.map (fun r => (jobs[r.1]?).map f)
      _ = ((p.results.map Prod.fst).map (jobs[·]?)).map (Option.map f) := by simp [Function.comp_def]
      _ = (jobs.map some).map (Option.map f) := by rw [h.map_fst_results horder, map_range_getElem?]
      _ = (jobs.map f).map some := by simp [Function.comp_def]
  refine List.map_injective_iff.2 (fun _ _ => Option.some.inj) ?_
  rw [List.map_map]
  exact heach.trans hall

/-- The others, when one of the jobs is left out. -/
theorem perm_cons_eraseIdx {i : Nat} {job : Job} (h : jobs[i]? = some job) : (job :: jobs.eraseIdx i).Perm jobs := by
  obtain ⟨hi, rfl⟩ := List.getElem?_eq_some_iff.1 h
  exact List.getElem_cons_eraseIdx_perm hi

/-- A program that was saved is at the target of its job, if all are saved at different places. -/
theorem Tracks.lookup?_target (h : Tracks lang jobs t p order) (horder : order.Perm (List.range jobs.length))
    (hseparate : jobs.Pairwise Job.Separate) {job : Job} {compiled : Compiled}
    (hmem : (job, .ok compiled) ∈ (jobsAt jobs order).zip (Job.inTurn lang t (jobsAt jobs order)).2) :
    p.tree.lookup? job.target = some (Job.saved compiled) := by
  rw [h.tree]
  exact Job.lookup?_inTurn (((perm_jobsAt horder).pairwise_iff Job.Separate.symm).2 hseparate) hmem

section Independent

variable (hclosed : t.IsClosed) (hjobs : Job.Independent t jobs)

include hclosed hjobs

theorem Tracks.find?_tree (h : Tracks lang jobs t p order) (horder : order.Perm (List.range jobs.length))
    (l : Location) : p.tree.find? l = (Job.inTurn lang t jobs).1.find? l := by
  rw [h.tree]
  exact hjobs.find?_inTurn_perm lang hclosed (perm_jobsAt horder) l

/-- The programs are those that each job would give alone. -/
theorem Tracks.map_toOption_results (h : Tracks lang jobs t p order) (horder : order.Perm (List.range jobs.length)) :
    (p.results.map fun f => f.2.toOption) = jobs.map fun job => (job.run lang t).2.toOption :=
  h.map_results horder (Job.merged_of_independent lang hclosed (hjobs.perm (perm_jobsAt horder).symm)).2.1

/-- The results are those that each job would give alone, if none hangs on the folders that others make. -/
theorem Tracks.map_snd_results (h : Tracks lang jobs t p order) (horder : order.Perm (List.range jobs.length))
    (hundisturbed : Job.Undisturbed t jobs) : p.results.map Prod.snd = jobs.map fun job => (job.run lang t).2 := by
  have hperm := (perm_jobsAt horder).symm
  have hexact : (Job.inTurn lang t (jobsAt jobs order)).2.map id =
      (jobsAt jobs order).map fun job => (job.run lang t).2 := by
    rw [List.map_id, (Job.merged_of_independent lang hclosed (hjobs.perm hperm)).2.2 (hundisturbed.perm hperm)]
  exact h.map_results horder hexact

theorem Tracks.saved (h : Tracks lang jobs t p order) (horder : order.Perm (List.range jobs.length)) {i : Nat}
    {compiled : Compiled} (hmem : (i, .ok compiled) ∈ p.results) :
    ∃ job, jobs[i]? = some job ∧ t.compileAt lang job.source = .ok compiled ∧
      p.tree.lookup? job.target = some (Job.saved compiled) := by
  obtain ⟨job, hjob, hzip⟩ := h.mem_results hmem
  obtain ⟨-, hprograms, -⟩ := Job.merged_of_independent lang hclosed (hjobs.perm (perm_jobsAt horder).symm)
  refine ⟨job, hjob, ?_, h.lookup?_target horder hjobs.separate hzip⟩
  exact Job.compileAt_of_toOption (eq_of_mem_zip hprograms hzip).symm

theorem Tracks.find?_of_fault (h : Tracks lang jobs t p order) (horder : order.Perm (List.range jobs.length)) {i : Nat}
    {job : Job} {fault : JobFault} (hjob : jobs[i]? = some job)
    (hfault : t.compileAt lang job.source = .error fault) :
    (∀ l, job.target.place? = some l → p.tree.find? l = t.find? l) ∧
      ∀ l, p.tree.find? l = (Job.inTurn lang t (jobs.eraseIdx i)).1.find? l := by
  have hothers := perm_cons_eraseIdx hjob
  have hindependent := hjobs.perm hothers.symm
  have hfiles : ∀ l, p.tree.find? l = (Job.inTurn lang t (jobs.eraseIdx i)).1.find? l := by
    intro l
    calc p.tree.find? l
      _ = (Job.inTurn lang t jobs).1.find? l := h.find?_tree hclosed hjobs horder l
      _ = (Job.inTurn lang t (job :: jobs.eraseIdx i)).1.find? l :=
        (hjobs.find?_inTurn_perm lang hclosed hothers l).symm
      _ = (Job.inTurn lang t (jobs.eraseIdx i)).1.find? l := by rw [Job.inTurn_of_fault hfault]
  refine ⟨?_, hfiles⟩
  obtain ⟨hmerged, -, -⟩ := Job.merged_of_independent lang hclosed hindependent.tail
  have hapart := (List.pairwise_cons.1 hindependent.apart).1
  have hstraight := (List.pairwise_cons.1 hindependent.straight).1
  exact (Job.placeKept_target (hmerged.of_find?_eq hfiles) (fun other hother => (hapart other hother).1)
    (fun other hother => (hstraight other hother).1) fun other hother => (hstraight other hother).2).place

theorem Tracks.sequential (h : Tracks lang jobs t p order) (horder : order.Perm (List.range jobs.length)) :
    Sequential lang jobs t p := by
  obtain ⟨-, hprograms, hfaults⟩ := Job.merged_of_independent lang hclosed hjobs
  have hresults := h.map_toOption_results hclosed hjobs horder
  have hreport := Report.ofResults_eq (h.map_fst_results horder)
  have hsame : (p.results.map Prod.snd).map Except.toOption = (Job.inTurn lang t jobs).2.map Except.toOption := by
    rw [List.map_map, hprograms, ← hresults]
    rfl
  obtain ⟨hs, -, hw⟩ := Report.ofOutcomes_eq jobs (p.results.map Prod.snd)
  obtain ⟨hs', -, hw'⟩ := Report.ofOutcomes_eq jobs (Job.inTurn lang t jobs).2
  refine ⟨h.find?_tree hclosed hjobs horder, ?_, ?_, ?_, fun hundisturbed => ?_, ?_, ?_, ?_⟩
  · rw [hreport, hs, hs', hsame]
  · rw [hreport, Report.map_fst_failed, Report.map_fst_failed, hsame]
  · rw [hreport, hw, hw', hsame]
  · rw [hreport, h.map_snd_results hclosed hjobs horder hundisturbed, hfaults hundisturbed]
  · intro i compiled hmem
    exact h.saved hclosed hjobs horder hmem
  · intro source hsource
    obtain ⟨job, hjob, rfl, compiled, hcompiled⟩ :=
      (h.accounted horder).of_mem_succeeded (fun _ _ hmem => h.saved hclosed hjobs horder hmem) hsource
    exact ⟨job, hjob, rfl, compiled, hcompiled⟩
  · intro i job fault hjob hfault
    obtain ⟨htarget, hfiles⟩ := h.find?_of_fault hclosed hjobs horder hjob hfault
    have hothers := (perm_cons_eraseIdx hjob).symm
    obtain ⟨-, hrest, hrest'⟩ := Job.merged_of_independent lang hclosed (hjobs.perm hothers).tail
    refine ⟨htarget, hfiles, ?_, fun hundisturbed => ?_⟩
    · rw [hresults, hrest, List.eraseIdx_map]
    · rw [h.map_snd_results hclosed hjobs horder hundisturbed, hrest' (hundisturbed.perm hothers).tail,
        List.eraseIdx_map]

end Independent

/-- Two scripts in a folder, the second of them at fault. -/
def desk : FileTree :=
  ⟨[(["s"], .folder), (["s", "a.gal"], .file ":action f(1)".toUTF8), (["s", "b.gal"], .file ":nothing".toUTF8)]⟩

/-- The two scripts, one of them by a way that turns back, and one that is missing; the targets are in a folder that is
missing, and the ways to them turn back, too. -/
def deskJobs : List Job :=
  [⟨⟨"s/a.gal"⟩, ⟨"s/../o/a.node"⟩⟩, ⟨⟨"s/../s/b.gal"⟩, ⟨"s/../o/b.node"⟩⟩, ⟨⟨"s/c.gal"⟩, ⟨"o/../o/deep/c.node"⟩⟩]

theorem isProper_desk : desk.IsProper := by decide

theorem isSound_desk : desk.IsSound := by
  refine ⟨FileTree.isClosed_of_forall ?_, isProper_desk⟩
  decide

/-- The first worker takes a job and waits until the second has done another. -/
def overtaking : List Nat := [0, 1, 1, 0, 0, 0, 0, 0, 1, 1, 1, 1]

theorem results_overtaking (lang : Language) (t : FileTree) (a b : Job) :
    ((start [a, b] 2 t).run lang [a, b] overtaking).results =
      [(0, (a.run lang (b.run lang t).1).2), (1, (b.run lang t).2)] := by
  have hworkers : ((start [a, b] 2 t).run lang [a, b] overtaking).workers =
      [(.stopped, [(0, (a.run lang (b.run lang t).1).2)]), (.stopped, [(1, (b.run lang t).2)])] := by
    simp [overtaking, run, start, workerCount, step, List.replicate]
  rw [results, hworkers]
  exact List.mergeSort_of_pairwise (by simp)

/-- Two scripts in the working directory. -/
def crossing : FileTree := ⟨[(["a.gal"], .file .empty), (["b.gal"], .file .empty)]⟩

/-- The way to the second script turns back in a folder that is made for the first. -/
def crossingJobs : List Job := [⟨⟨"a.gal"⟩, ⟨"new/x.node"⟩⟩, ⟨⟨"new/../b.gal"⟩, ⟨"y.node"⟩⟩]

/-- Two scripts in a folder, and a file. -/
def blocked : FileTree :=
  ⟨[(["f"], .file .empty), (["s"], .folder), (["s", "a.gal"], .file .empty), (["s", "b.gal"], .file .empty)]⟩

/-- The ways to the targets turn back in a folder that is missing, before they come to the file. -/
def blockedJobs : List Job :=
  [⟨⟨"s/a.gal"⟩, ⟨"new/../f/g/a.node"⟩⟩, ⟨⟨"s/b.gal"⟩, ⟨"new/../f/g/b.node"⟩⟩]

end Pool

end SceneScript
