import SceneScript.Proofs.Batch.Job

/-!
# Jobs that do not meddle with each other

A job reads along the way to its script and writes along the way to its target.  If no target lies at, above or below a
script or target of another job, and no way turns back in what is made for another job, then each job does what it
would do alone, and the files that are left are what each leaves alone, put together.  So the order of the jobs does
not matter.

    Independent t jobs → Merged t (what each leaves alone) (inTurn lang t jobs).1      (merged_inTurn)
-/

namespace SceneScript

namespace FileTree

variable {t u u' part : FileTree} {parts : List FileTree} {l : Location}

/-- `u` is what the changes from `t` to some trees come to together. -/
structure Merged (t : FileTree) (parts : List FileTree) (u : FileTree) : Prop where
  new : ∀ part ∈ parts, ∀ l, part.find? l ≠ t.find? l → u.find? l = part.find? l
  same : ∀ l, (∀ part ∈ parts, part.find? l = t.find? l) → u.find? l = t.find? l

theorem merged_nil (t : FileTree) : Merged t [] t := ⟨by simp, fun _ _ => rfl⟩

theorem Merged.concat (h : Merged t parts u) (hmoves : Moves t part u u') : Merged t (parts ++ [part]) u' := by
  constructor
  · intro other hother l hl
    rcases List.mem_append.1 hother with hother | hother
    · have hu := h.new other hother l hl
      by_cases hpart : part.find? l = t.find? l
      · rw [hmoves.same l hpart, hu]
      · -- Both have changed the location, so `u` had what the new part has.
        obtain ⟨hnew, hold | hold⟩ := hmoves.new l hpart
        · exact absurd (hu.symm.trans hold) hl
        · rw [hnew, ← hold, hu]
    · obtain rfl := List.mem_singleton.1 hother
      exact (hmoves.new l hl).1
  · intro l hl
    rw [hmoves.same l (hl part (by simp)), h.same l fun other hother => hl other (by simp [hother])]

theorem Merged.of_find?_eq (h : Merged t parts u) (heq : ∀ l, u'.find? l = u.find? l) : Merged t parts u' :=
  ⟨fun part hpart l hl => (heq l).trans (h.new part hpart l hl), fun l hl => (heq l).trans (h.same l hl)⟩

theorem Merged.exists_of_ne (h : Merged t parts u) (hl : u.find? l ≠ t.find? l) :
    ∃ part ∈ parts, part.find? l ≠ t.find? l ∧ u.find? l = part.find? l := by
  by_contra hnone
  refine hl (h.same l fun part hpart => ?_)
  by_contra hne
  exact hnone ⟨part, hpart, hne, h.new part hpart l hne⟩

/-- What the parts come to does not depend on their order. -/
theorem Merged.find?_eq {parts' : List FileTree} (h : Merged t parts u) (h' : Merged t parts' u')
    (hparts : ∀ part, part ∈ parts ↔ part ∈ parts') (l : Location) : u.find? l = u'.find? l := by
  by_cases hl : u.find? l = t.find? l
  · by_cases hl' : u'.find? l = t.find? l
    · rw [hl, hl']
    · obtain ⟨part, hpart, hne, heq⟩ := h'.exists_of_ne hl'
      rw [heq, h.new part ((hparts part).2 hpart) l hne]
  · obtain ⟨part, hpart, hne, heq⟩ := h.exists_of_ne hl
    rw [heq, h'.new part ((hparts part).1 hpart) l hne]

end FileTree

namespace Path

/-- One of two paths leads to the place of the other, or below it. -/
def Meets (p q : Path) : Prop := ∃ k ∈ p.place?, ∃ l ∈ q.place?, k <+: l ∨ l <+: k

instance (p q : Path) : Decidable (p.Meets q) :=
  inferInstanceAs (Decidable (∃ k ∈ p.place?, ∃ l ∈ q.place?, k <+: l ∨ l <+: k))

/-- A path that leads through the place of another without being at or below it turns back there. -/
theorem mem_turns_of_not_meets {p q : Path} {l : Location} (h : ¬ p.Meets q) (hq : q.place? = some l)
    (hl : l ∈ p.trail) : l ∈ p.turns := by
  refine (mem_trail_cases hl).resolve_left fun hbelow => ?_
  obtain ⟨k, hk, hlk⟩ := hbelow
  exact h ⟨k, hk, l, hq, .inr hlk⟩

end Path

namespace FileTree

instance (found : Option Entry) : Decidable (found = some .folder) :=
  match found with
  | some .folder => .isTrue rfl
  | some (.file _) => .isFalse nofun
  | none => .isFalse nofun

instance (found : Option Entry) : Decidable (∃ content, found = some (.file content)) :=
  match found with
  | some (.file content) => .isTrue ⟨content, rfl⟩
  | some .folder => .isFalse nofun
  | none => .isFalse nofun

instance (t : FileTree) (loc : Location) : Decidable (t.HasFile loc) :=
  inferInstanceAs (Decidable (∃ content, t.find? loc = some (.file content)))

end FileTree

namespace Job

variable {lang : Language} {t u : FileTree} {job : Job} {jobs done : List Job}

/-- The target of `b` lies neither at the script or the target of `a`, nor above or below one of them. -/
def Apart (a b : Job) : Prop := ¬ a.source.Meets b.target ∧ ¬ a.target.Meets b.target

/-- The ways of `a` do not turn back in what `b` makes, but in folders that are there: the way to the script turns back
nowhere else on the way to the target of `b`, and the way to the target not at that target. -/
def Straight (t : FileTree) (a b : Job) : Prop :=
  (∀ l ∈ a.source.turns, l ∈ b.target.trail → t.find? l = some .folder) ∧
    ∀ l ∈ a.target.turns, b.target.place? = some l → t.find? l = some .folder

/-- No two jobs meddle with each other. -/
structure Independent (t : FileTree) (jobs : List Job) : Prop where
  apart : jobs.Pairwise fun a b => a.Apart b ∧ b.Apart a
  straight : jobs.Pairwise fun a b => a.Straight t b ∧ b.Straight t a

/-- What `a` fails for does not hang on the folders that `b` makes.  Where the way to the script and that to the target of
`b` have a place in common at which nothing lies, the script has no name that is too long and is not to be there
itself; and the way to the target turns back at no such place, unless no file is in its way. -/
def Steady (t : FileTree) (a b : Job) : Prop :=
  (∀ l ∈ a.source.trail, l ∈ b.target.trail → t.find? l = none →
      Path.Fits a.source.pieces ∧ a.source.place? ≠ some l) ∧
    ((∀ l ∈ a.target.turns, l ∈ b.target.trail → t.find? l ≠ none) ∨ ∀ l ∈ a.target.trail, ¬ t.HasFile l)

/-- What a job fails for does not hang on the folders that the others make. -/
def Undisturbed (t : FileTree) (jobs : List Job) : Prop := jobs.Pairwise fun a b => a.Steady t b ∧ b.Steady t a

instance (a b : Job) : Decidable (a.Apart b) :=
  inferInstanceAs (Decidable (¬ a.source.Meets b.target ∧ ¬ a.target.Meets b.target))

instance (t : FileTree) (a b : Job) : Decidable (a.Straight t b) :=
  inferInstanceAs (Decidable ((∀ l ∈ a.source.turns, l ∈ b.target.trail → t.find? l = some .folder) ∧
    ∀ l ∈ a.target.turns, b.target.place? = some l → t.find? l = some .folder))

instance (t : FileTree) (jobs : List Job) : Decidable (Independent t jobs) :=
  decidable_of_iff
    ((jobs.Pairwise fun a b => a.Apart b ∧ b.Apart a) ∧ jobs.Pairwise fun a b => a.Straight t b ∧ b.Straight t a)
    ⟨fun h => ⟨h.1, h.2⟩, fun h => ⟨h.apart, h.straight⟩⟩

instance (pieces : List (List Char)) : Decidable (Path.Fits pieces) :=
  inferInstanceAs (Decidable (∀ piece ∈ pieces, FileTree.isTooLong piece = false))

instance (t : FileTree) (a b : Job) : Decidable (a.Steady t b) :=
  inferInstanceAs (Decidable ((∀ l ∈ a.source.trail, l ∈ b.target.trail → t.find? l = none →
      Path.Fits a.source.pieces ∧ a.source.place? ≠ some l) ∧
    ((∀ l ∈ a.target.turns, l ∈ b.target.trail → t.find? l ≠ none) ∨ ∀ l ∈ a.target.trail, ¬ t.HasFile l)))

instance (t : FileTree) (jobs : List Job) : Decidable (Undisturbed t jobs) :=
  inferInstanceAs (Decidable (jobs.Pairwise fun a b => a.Steady t b ∧ b.Steady t a))

/-- The jobs, one after another. -/
def inTurn (lang : Language) (t : FileTree) : List Job → FileTree × List (Except JobFault Compiled)
  | [] => (t, [])
  | job :: jobs =>
    let (t, result) := job.run lang t
    let (t, results) := inTurn lang t jobs
    (t, result :: results)

/-- What the job leaves when it is done first. -/
def alone (lang : Language) (t : FileTree) (job : Job) : FileTree := (job.run lang t).1

theorem inTurn_cons (lang : Language) (t : FileTree) (job : Job) (jobs : List Job) :
    inTurn lang t (job :: jobs) =
      ((inTurn lang (job.run lang t).1 jobs).1, (job.run lang t).2 :: (inTurn lang (job.run lang t).1 jobs).2) := rfl

theorem inTurn_append (lang : Language) (t : FileTree) (jobs more : List Job) :
    inTurn lang t (jobs ++ more) =
      ((inTurn lang (inTurn lang t jobs).1 more).1,
        (inTurn lang t jobs).2 ++ (inTurn lang (inTurn lang t jobs).1 more).2) := by
  induction jobs generalizing t with
  | nil => rfl
  | cons job jobs ih => rw [List.cons_append, inTurn_cons, inTurn_cons, ih, List.cons_append]

theorem length_inTurn (lang : Language) (t : FileTree) (jobs : List Job) :
    (inTurn lang t jobs).2.length = jobs.length := by
  induction jobs generalizing t with
  | nil => rfl
  | cons job jobs ih => rw [inTurn_cons, List.length_cons, List.length_cons, ih]

/-- A job whose script cannot be compiled does nothing. -/
theorem inTurn_of_fault {job : Job} {fault : JobFault} (h : t.compileAt lang job.source = .error fault)
    (jobs : List Job) : (inTurn lang t (job :: jobs)).1 = (inTurn lang t jobs).1 := by
  rw [inTurn_cons, run_of_fault h]

/-! ## Files that stay -/

theorem find?_inTurn_of_folder {l : Location} (h : t.find? l = some .folder) (jobs : List Job) :
    (inTurn lang t jobs).1.find? l = some .folder := by
  induction jobs generalizing t with
  | nil => exact h
  | cons job jobs ih =>
    rw [inTurn_cons]
    exact ih (find?_run_of_folder h)

/-- A file stays as it is if no program is saved at its place. -/
theorem find?_inTurn_of_file {l : Location} {content : ByteArray} (h : t.find? l = some (.file content))
    (hjobs : ∀ job ∈ jobs, job.target.filePlace? ≠ some l) :
    (inTurn lang t jobs).1.find? l = some (.file content) := by
  induction jobs generalizing t with
  | nil => exact h
  | cons job jobs ih =>
    rw [inTurn_cons]
    refine ih ?_ fun other hother => hjobs other (List.mem_cons_of_mem _ hother)
    rcases find?_run lang t job l with hsame | ⟨-, hnone, -⟩ | ⟨_, -, hplace, -⟩
    · rw [hsame, h]
    · rw [h] at hnone
      cases hnone
    · exact absurd hplace (hjobs job List.mem_cons_self)

/-- Two jobs save their programs at different places. -/
def Separate (a b : Job) : Prop := ∀ l, a.target.filePlace? = some l → b.target.filePlace? ≠ some l

theorem Separate.symm {a b : Job} (h : Separate a b) : Separate b a := fun l hb ha => h l ha hb

/-- **Every program that was saved is there in the end** if all are saved at different places. -/
theorem lookup?_inTurn (h : jobs.Pairwise Separate) {job : Job} {compiled : Compiled}
    (hmem : (job, .ok compiled) ∈ jobs.zip (inTurn lang t jobs).2) :
    (inTurn lang t jobs).1.lookup? job.target = some (saved compiled) := by
  induction jobs generalizing t with
  | nil => cases hmem
  | cons first jobs ih =>
    obtain ⟨hfirst, hrest⟩ := List.pairwise_cons.1 h
    rw [inTurn_cons] at hmem ⊢
    rw [List.zip_cons_cons, List.mem_cons] at hmem
    rcases hmem with heq | hmem
    · obtain ⟨rfl, hresult⟩ := Prod.mk.injEq .. ▸ heq
      obtain ⟨-, loc, hplace, hfind, hlookup⟩ := saved_of_run hresult.symm
      refine hlookup _ (fun l hl => find?_inTurn_of_folder hl jobs) _ ?_
      exact find?_inTurn_of_file hfind fun other hother => hfirst other hother loc hplace
    · exact ih hrest hmem

/-! ## Independent jobs -/

/-- Where jobs that are done have changed something, it is a folder on the way to the target of one of them, or that
target. -/
theorem exists_of_merged (h : FileTree.Merged t (done.map (alone lang t)) u) {l : Location}
    (hl : u.find? l ≠ t.find? l) :
    ∃ other ∈ done, l ∈ other.target.trail ∧
      (t.find? l = none ∧ u.find? l = some .folder ∨ other.target.place? = some l ∧ t.find? l ≠ some .folder) := by
  obtain ⟨part, hpart, hne, heq⟩ := h.exists_of_ne hl
  obtain ⟨other, hother, rfl⟩ := List.mem_map.1 hpart
  refine ⟨other, hother, ?_⟩
  rcases find?_run lang t other l with hsame | ⟨htrail, hnone, hfolder⟩ | ⟨_, -, hplace, htrail, hnot, -⟩
  · exact absurd hsame hne
  · exact ⟨htrail, .inl ⟨hnone, heq.trans hfolder⟩⟩
  · exact ⟨htrail, .inr ⟨Path.place?_of_filePlace? hplace, hnot⟩⟩

theorem find?_of_folder (h : FileTree.Merged t (done.map (alone lang t)) u) {l : Location}
    (hl : t.find? l = some .folder) : u.find? l = t.find? l := by
  by_contra hne
  obtain ⟨_, -, -, ⟨hnone, -⟩ | ⟨-, hnot⟩⟩ := exists_of_merged h hne
  · rw [hl] at hnone
    cases hnone
  · exact hnot hl

/-- On a way that turns back at the targets of other jobs only in folders, and does not meet these targets otherwise, the
other jobs have made folders at most. -/
theorem grown_of_merged (h : FileTree.Merged t (done.map (alone lang t)) u) {p : Path}
    (hmeets : ∀ other ∈ done, ¬ p.Meets other.target)
    (hturns : ∀ other ∈ done, ∀ l ∈ p.turns, l ∈ other.target.trail → other.target.place? = some l →
      t.find? l = some .folder) : ∀ l ∈ p.trail, t.Grown u l := by
  intro l hl
  by_cases hsame : u.find? l = t.find? l
  · exact .inl hsame
  · obtain ⟨other, hother, htrail, hfolder | ⟨hplace, hnot⟩⟩ := exists_of_merged h hsame
    · exact .inr hfolder
    · -- The way is not at or below the target of the other job, so it turns back there.
      have hturn := Path.mem_turns_of_not_meets (hmeets other hother) hplace hl
      exact absurd (hturns other hother l hturn htrail hplace) hnot

section Kept

variable (h : FileTree.Merged t (done.map (alone lang t)) u) (hapart : ∀ other ∈ done, job.Apart other)
  (hstraight : ∀ other ∈ done, job.Straight t other)

include h hapart hstraight

theorem wayKept_source : t.WayKept u job.source := by
  constructor
  · refine grown_of_merged h (fun other hother => (hapart other hother).1) ?_
    intro other hother l hl htrail _
    exact (hstraight other hother).1 l hl htrail
  · intro l hl
    by_contra hne
    obtain ⟨other, hother, htrail, -⟩ := exists_of_merged h hne
    exact hne (find?_of_folder h ((hstraight other hother).1 l hl htrail))

theorem grown_target : ∀ l ∈ job.target.trail, t.Grown u l := by
  refine grown_of_merged h (fun other hother => (hapart other hother).2) ?_
  intro other hother l hl _ hplace
  exact (hstraight other hother).2 l hl hplace

theorem placeKept_target (hstraight' : ∀ other ∈ done, other.Straight t job) : t.PlaceKept u job.target := by
  refine ⟨grown_target h hapart hstraight, fun l hl => ?_⟩
  by_contra hne
  obtain ⟨other, hother, htrail, -⟩ := exists_of_merged h hne
  have hmeets : ¬ other.target.Meets job.target := by
    rintro ⟨k, hk, l', hl', hkl⟩
    exact (hapart other hother).2 ⟨l', hl', k, hk, hkl.symm⟩
  have hturn := Path.mem_turns_of_not_meets hmeets hl htrail
  exact hne (find?_of_folder h ((hstraight' other hother).2 l hturn hl))

theorem readText_of_steady (hclosed : t.IsClosed) (hsteady : ∀ other ∈ done, job.Steady t other) :
    u.readText job.source = t.readText job.source := by
  have hkept := wayKept_source h hapart hstraight
  -- A place where the trees differ is missing in the old one and on the way of another job.
  have hnew : ∀ l ∈ job.source.trail, u.find? l ≠ t.find? l →
      Path.Fits job.source.pieces ∧ job.source.place? ≠ some l := by
    intro l hl hne
    obtain ⟨other, hother, htrail, -⟩ := exists_of_merged h hne
    exact (hsteady other hother).1 l hl htrail ((hkept.grown l hl).resolve_left hne).1
  by_cases hsame : ∀ l ∈ job.source.trail, u.find? l = t.find? l
  · exact FileTree.readText_congr hsame
  · simp only [not_forall] at hsame
    obtain ⟨l, hl, hne⟩ := hsame
    refine (hkept.readText_cases hclosed).resolve_right ?_
    rintro ⟨-, ⟨-, hlong⟩ | ⟨-, k, hplace, hnone, hfolder⟩⟩
    · exact hlong (hnew l hl hne).1
    · have hdiffers : u.find? k ≠ t.find? k := by simp [hnone, hfolder]
      rcases FileTree.mem_trail_of_place? hplace with rfl | hk
      · exact hdiffers rfl
      · exact (hnew k hk hdiffers).2 hplace

theorem makeRoom_of_steady (hclosed : t.IsClosed) (hsteady : ∀ other ∈ done, job.Steady t other) :
    (u.makeRoom job.target).2 = (t.makeRoom job.target).2 := by
  have hgrown := grown_target h hapart hstraight
  refine FileTree.fault_makeRoom hclosed hgrown ?_
  by_cases hnofile : ∀ l ∈ job.target.trail, ¬ t.HasFile l
  · exact .inr hnofile
  · refine .inl fun l hl => ?_
    by_contra hne
    obtain ⟨other, hother, htrail, ⟨hnone, -⟩ | ⟨hplace, hnot⟩⟩ := exists_of_merged h hne
    · exact ((hsteady other hother).2.resolve_right hnofile) l hl htrail hnone
    · exact hnot ((hstraight other hother).2 l hl hplace)

end Kept

theorem Independent.of_append (h : Independent t (done ++ job :: jobs)) :
    ∀ other ∈ done, job.Apart other ∧ job.Straight t other ∧ other.Straight t job := by
  intro other hother
  have hapart := (List.pairwise_append.1 h.apart).2.2 other hother job List.mem_cons_self
  have hstraight := (List.pairwise_append.1 h.straight).2.2 other hother job List.mem_cons_self
  exact ⟨hapart.2, hstraight.2, hstraight.1⟩

/-- **Jobs that do not meddle with each other do what each would do alone**, also after some of them are done. -/
theorem merged_inTurn (hclosed : t.IsClosed) (hdone : FileTree.Merged t (done.map (alone lang t)) u)
    (h : Independent t (done ++ jobs)) :
    FileTree.Merged t ((done ++ jobs).map (alone lang t)) (inTurn lang u jobs).1 ∧
      (inTurn lang u jobs).2.map Except.toOption = jobs.map (fun job => (job.run lang t).2.toOption) ∧
      (Undisturbed t (done ++ jobs) → (inTurn lang u jobs).2 = jobs.map fun job => (job.run lang t).2) := by
  induction jobs generalizing done u with
  | nil =>
    rw [List.append_nil]
    exact ⟨hdone, rfl, fun _ => rfl⟩
  | cons job jobs ih =>
    have hapart : ∀ other ∈ done, job.Apart other := fun other hother => (h.of_append other hother).1
    have hstraight : ∀ other ∈ done, job.Straight t other := fun other hother => (h.of_append other hother).2.1
    obtain ⟨hmoves, hresult, hexact⟩ := moves_run lang hclosed (wayKept_source hdone hapart hstraight)
      (placeKept_target hdone hapart hstraight fun other hother => (h.of_append other hother).2.2)
    have hnext : FileTree.Merged t ((done ++ [job]).map (alone lang t)) (job.run lang u).1 := by
      rw [List.map_append]
      exact hdone.concat hmoves
    have hassoc : done ++ job :: jobs = (done ++ [job]) ++ jobs := by simp
    rw [hassoc] at h ⊢
    obtain ⟨hmerged, hresults, hfaults⟩ := ih hnext h
    rw [inTurn_cons]
    refine ⟨hmerged, by rw [List.map_cons, List.map_cons, hresult, hresults], fun hundisturbed => ?_⟩
    rw [List.map_cons, hfaults hundisturbed]
    rw [← hassoc] at hundisturbed
    have hsteady : ∀ other ∈ done, job.Steady t other :=
      fun other hother => ((List.pairwise_append.1 hundisturbed).2.2 other hother job List.mem_cons_self).2
    rw [hexact (readText_of_steady hdone hapart hstraight hclosed hsteady)
      (makeRoom_of_steady hdone hapart hstraight hclosed hsteady)]

theorem merged_of_independent (lang : Language) (hclosed : t.IsClosed) (h : Independent t jobs) :
    FileTree.Merged t (jobs.map (alone lang t)) (inTurn lang t jobs).1 ∧
      (inTurn lang t jobs).2.map Except.toOption = jobs.map (fun job => (job.run lang t).2.toOption) ∧
      (Undisturbed t jobs → (inTurn lang t jobs).2 = jobs.map fun job => (job.run lang t).2) := by
  have hnil : FileTree.Merged t (([] : List Job).map (alone lang t)) t := FileTree.merged_nil t
  exact merged_inTurn hclosed hnil h

theorem Independent.perm {jobs' : List Job} (h : Independent t jobs) (hperm : jobs.Perm jobs') :
    Independent t jobs' :=
  ⟨(hperm.pairwise_iff fun hab => ⟨hab.2, hab.1⟩).1 h.apart,
    (hperm.pairwise_iff fun hab => ⟨hab.2, hab.1⟩).1 h.straight⟩

theorem Independent.tail (h : Independent t (job :: jobs)) : Independent t jobs :=
  ⟨(List.pairwise_cons.1 h.apart).2, (List.pairwise_cons.1 h.straight).2⟩

theorem Undisturbed.perm {jobs' : List Job} (h : Undisturbed t jobs) (hperm : jobs.Perm jobs') :
    Undisturbed t jobs' :=
  (hperm.pairwise_iff fun hab => ⟨hab.2, hab.1⟩).1 h

theorem Undisturbed.tail (h : Undisturbed t (job :: jobs)) : Undisturbed t jobs := (List.pairwise_cons.1 h).2

/-- **The order of jobs that do not meddle with each other does not matter** for the files. -/
theorem Independent.find?_inTurn_perm (h : Independent t jobs) (lang : Language) (hclosed : t.IsClosed)
    {jobs' : List Job} (hperm : jobs'.Perm jobs) (l : Location) :
    (inTurn lang t jobs').1.find? l = (inTurn lang t jobs).1.find? l := by
  obtain ⟨hmerged, -, -⟩ := merged_of_independent lang hclosed h
  obtain ⟨hmerged', -, -⟩ := merged_of_independent lang hclosed (h.perm hperm.symm)
  exact hmerged'.find?_eq hmerged (fun _ => (hperm.map _).mem_iff) l

theorem Independent.separate (h : Independent t jobs) : jobs.Pairwise Separate := by
  refine h.apart.imp fun {a b} hab l ha hb => hab.1.2 ?_
  exact ⟨l, Path.place?_of_filePlace? ha, l, Path.place?_of_filePlace? hb, .inl List.prefix_rfl⟩

end Job

end SceneScript
