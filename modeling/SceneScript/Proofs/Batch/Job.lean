import SceneScript.Batch.Job
import SceneScript.Proofs.Storage.Disk

/-!
# What a job does

A job reads along the way to its script, makes folders on the way to its target and saves a program at the end of it.
In a tree that has grown on these ways it does the same.

    a job leaves a disk a disk                                       (isSound_run)
    what a job changes lies on the trail of its target               (find?_run)
    what a job does to t, it does to u                               (moves_run)
-/

namespace SceneScript

namespace FileTree

variable {t u : FileTree} {p : Path}

/-! ## Making room -/

/-- There is nothing to make, or no way to make it, or the folders of the path are made. -/
theorem makeRoom_cases (p : Path) :
    ((∀ t : FileTree, t.makeRoom p = (t, none)) ∧ ∀ l ∈ p.trail, p.place? = some l) ∨
      (∃ fault, ∀ t : FileTree, t.makeRoom p = (t, some fault)) ∨
      ∃ folder, folder.IsFolderOf p ∧ refusal? folder = none ∧ ∀ t : FileTree, t.makeRoom p =
        ((t.makeFrom false [] t folder.pieces).1,
          (t.makeFrom false [] t folder.pieces).2.map (.createFolder folder)) := by
  rcases p.parent?_cases with ⟨hnone, hplace⟩ | ⟨-, hroot⟩ | ⟨folder, hfolder⟩
  · refine .inl ⟨fun t => ?_, hplace⟩
    unfold makeRoom
    split
    · rfl
    · rename_i folder hparent
      rw [if_pos (hnone folder hparent)]
  · refine .inr (.inl ⟨.createFolder ⟨"/"⟩ .isDirectory, fun t => ?_⟩)
    have hrefusal : refusal? ⟨"/"⟩ = some .isDirectory := by decide +kernel
    simp [makeRoom, hroot, createFolders, hrefusal]
  · cases hrefusal : refusal? folder with
    | some fault =>
      refine .inr (.inl ⟨.createFolder folder fault, fun t => ?_⟩)
      simp [makeRoom, hfolder.parent?, hfolder.not_empty, createFolders, hrefusal]
    | none =>
      refine .inr (.inr ⟨folder, hfolder, hrefusal, fun t => ?_⟩)
      simp [makeRoom, hfolder.parent?, hfolder.not_empty, createFolders, hrefusal]

theorem find?_makeRoom (t : FileTree) (p : Path) (l : Location) :
    (t.makeRoom p).1.find? l = t.find? l ∨
      l ∈ p.trail ∧ t.find? l = none ∧ (t.makeRoom p).1.find? l = some .folder := by
  rcases makeRoom_cases p with ⟨hroom, -⟩ | ⟨fault, hroom⟩ | ⟨folder, hfolder, hrefusal, hroom⟩
  · exact .inl (by rw [hroom])
  · exact .inl (by rw [hroom])
  · rw [hroom]
    refine (find?_makeFrom t.shows_self false l).imp_right fun h => ⟨hfolder.trail l ?_, h.2⟩
    rw [(trail_of_accepted hrefusal).1]
    exact h.1

/-- After room has been made, every place of the trail is a folder, the last one apart. -/
theorem find?_trail_of_makeRoom (h : (t.makeRoom p).2 = none) {l : Location} (hl : l ∈ p.trail) :
    (t.makeRoom p).1.find? l = some .folder ∨ p.place? = some l := by
  rcases makeRoom_cases p with ⟨-, hplace⟩ | ⟨fault, hroom⟩ | ⟨folder, hfolder, hrefusal, hroom⟩
  · exact .inr (hplace l hl)
  · rw [hroom] at h
    cases h
  · rw [hroom] at h ⊢
    refine (hfolder.place l hl).imp_left fun hl => ?_
    rw [(trail_of_accepted hrefusal).1] at hl
    exact find?_trail_of_makeFrom t.shows_self (Option.map_eq_none_iff.1 h) l hl

theorem IsSound.makeRoom (h : t.IsSound) (p : Path) : (t.makeRoom p).1.IsSound := by
  unfold FileTree.makeRoom
  split
  · exact h
  · rename_i folder hparent
    split
    · exact h
    · exact h.createFolders folder

/-- Room is made alike in a tree and in one that has grown on the way of the path, in both or in none. -/
theorem moves_makeRoom (hgrown : ∀ l ∈ p.trail, t.Grown u l) :
    Moves t (t.makeRoom p).1 u (u.makeRoom p).1 ∧ (u.makeRoom p).2.isSome = (t.makeRoom p).2.isSome := by
  rcases makeRoom_cases p with ⟨hroom, -⟩ | ⟨fault, hroom⟩ | ⟨folder, hfolder, hrefusal, hroom⟩
  · rw [hroom, hroom]
    exact ⟨.refl t u, rfl⟩
  · rw [hroom, hroom]
    exact ⟨.refl t u, rfl⟩
  · have htrail := hfolder.trail
    rw [(trail_of_accepted hrefusal).1] at htrail
    obtain ⟨hmoves, hstop, -⟩ := moves_makeFrom t.shows_self u.shows_self false false
      fun l hl => hgrown l (htrail l hl)
    rw [hroom, hroom]
    exact ⟨hmoves, by simpa using hstop⟩

/-- The fault of making room hangs on the folders that are there only if the path turns back in one of them and a file
stands in its way. -/
theorem fault_makeRoom (hclosed : t.IsClosed) (hgrown : ∀ l ∈ p.trail, t.Grown u l)
    (h : (∀ l ∈ p.turns, u.find? l = t.find? l) ∨ ∀ l ∈ p.trail, ¬ t.HasFile l) :
    (u.makeRoom p).2 = (t.makeRoom p).2 := by
  rcases makeRoom_cases p with ⟨hroom, -⟩ | ⟨fault, hroom⟩ | ⟨folder, hfolder, hrefusal, hroom⟩
  · rw [hroom, hroom]
  · rw [hroom, hroom]
  · have htrail := hfolder.trail
    have hturns := hfolder.turns
    rw [(trail_of_accepted hrefusal).1] at htrail
    rw [turns_of_accepted hrefusal] at hturns
    have hbehind : (Path.trailFrom [] folder.pieces).Pairwise fun k l => u.find? k ≠ t.find? k → ¬ t.HasFile l := by
      refine (Path.pairwise_trailFrom [] folder.pieces).imp_of_mem fun {k l} hk hl hbelow hne => ?_
      rcases h with hsame | hnofile
      · -- The folder is new and not left again, so that nothing lies behind it.
        have hnone := ((hgrown k (htrail k hk)).resolve_left hne).1
        rintro ⟨content, hcontent⟩
        rw [hclosed.find?_eq_none hnone (hbelow fun hturn => hne (hsame k (hturns k hturn)))] at hcontent
        cases hcontent
      · exact hnofile l (htrail l hl)
    obtain ⟨-, -, hfault⟩ := moves_makeFrom t.shows_self u.shows_self false false fun l hl => hgrown l (htrail l hl)
    rw [hroom, hroom]
    dsimp only
    rw [hfault (.inl rfl) hbehind]

/-- On the way of a path, `u` differs from `t` at most by folders, and not at all where the path leads. -/
structure PlaceKept (t u : FileTree) (p : Path) : Prop where
  grown : ∀ l ∈ p.trail, t.Grown u l
  place : ∀ l, p.place? = some l → u.find? l = t.find? l

/-- After room has been made, the trees agree on the way of the path. -/
theorem PlaceKept.find?_makeRoom (h : t.PlaceKept u p) (hfault : (t.makeRoom p).2 = none) {l : Location}
    (hl : l ∈ p.trail) : (u.makeRoom p).1.find? l = (t.makeRoom p).1.find? l := by
  obtain ⟨hmoves, hstop⟩ := moves_makeRoom h.grown
  have hfault' : (u.makeRoom p).2 = none := by simpa [hfault] using hstop
  by_cases hplace : p.place? = some l
  · by_cases hmoved : (t.makeRoom p).1.find? l = t.find? l
    · rw [hmoves.same l hmoved, h.place l hplace, hmoved]
    · exact (hmoves.new l hmoved).1
  · rw [(find?_trail_of_makeRoom hfault hl).resolve_right hplace,
      (find?_trail_of_makeRoom hfault' hl).resolve_right hplace]

/-- The same file may be written in both trees after. -/
theorem Moves.put {t' u' : FileTree} (h : Moves t t' u u') {loc : Location} (hne : loc ≠ []) (e : Entry)
    (hsame : u.find? loc = t.find? loc) : Moves t (t'.put loc e) u (u'.put loc e) := by
  constructor
  · intro l hl
    rw [find?_put _ hne] at hl ⊢
    split
    · rename_i heq
      rw [if_pos heq] at hl
      rw [hl, heq, hsame]
    · rename_i heq
      rw [if_neg heq] at hl
      exact h.same l hl
  · intro l hl
    rw [find?_put _ hne] at hl ⊢
    rw [find?_put _ hne]
    split
    · rename_i heq
      exact ⟨rfl, .inl (by rw [heq, hsame])⟩
    · rename_i heq
      rw [if_neg heq] at hl
      exact h.new l hl

end FileTree

namespace Job

variable {lang : Language} {t u : FileTree} {job : Job}

/-! ## What a job does -/

/-- What is saved for a script. -/
def saved (compiled : Compiled) : Entry := .file compiled.program.save.toUTF8

theorem run_of_fault {fault : JobFault} (h : t.compileAt lang job.source = .error fault) :
    job.run lang t = (t, .error fault) := by
  rw [run, h]

theorem run_of_compiled {compiled : Compiled} (h : t.compileAt lang job.source = .ok compiled) :
    job.run lang t =
      match (t.makeRoom job.target).2 with
      | some fault => ((t.makeRoom job.target).1, .error fault)
      | none =>
        match (t.makeRoom job.target).1.spot job.target with
        | .error fault => ((t.makeRoom job.target).1, .error (.write job.target fault))
        | .ok loc => ((t.makeRoom job.target).1.put loc (saved compiled), .ok compiled) := by
  rw [run, h]
  rcases t.makeRoom job.target with ⟨room, _ | fault⟩
  · simp only [FileTree.write_eq]
    cases room.spot job.target <;> rfl
  · rfl

/-- What can become of a job. -/
theorem run_cases (lang : Language) (t : FileTree) (job : Job) :
    (∃ fault, t.compileAt lang job.source = .error fault ∧ job.run lang t = (t, .error fault)) ∨
      (∃ fault, job.run lang t = ((t.makeRoom job.target).1, .error fault)) ∨
      ∃ compiled loc, t.compileAt lang job.source = .ok compiled ∧
        (t.makeRoom job.target).1.spot job.target = .ok loc ∧
        job.run lang t = ((t.makeRoom job.target).1.put loc (saved compiled), .ok compiled) := by
  cases hcompile : t.compileAt lang job.source with
  | error fault => exact .inl ⟨fault, rfl, run_of_fault hcompile⟩
  | ok compiled =>
    right
    rw [run_of_compiled hcompile]
    split
    · rename_i fault hroom
      exact .inl ⟨fault, rfl⟩
    · split
      · exact .inl ⟨_, rfl⟩
      · rename_i loc hspot
        exact .inr ⟨compiled, loc, rfl, hspot, rfl⟩

theorem isSound_run (lang : Language) (h : t.IsSound) (job : Job) : (job.run lang t).1.IsSound := by
  rcases run_cases lang t job with ⟨fault, -, hrun⟩ | ⟨fault, hrun⟩ | ⟨compiled, loc, -, hspot, hrun⟩
  · rw [hrun]
    exact h
  · rw [hrun]
    exact h.makeRoom job.target
  · rw [hrun]
    exact (h.makeRoom job.target).put hspot _

/-- A job makes folders on the way to its target where there was nothing, and saves a program where there was no
folder; nothing else changes. -/
theorem find?_run (lang : Language) (t : FileTree) (job : Job) (l : Location) :
    (job.run lang t).1.find? l = t.find? l ∨
      (l ∈ job.target.trail ∧ t.find? l = none ∧ (job.run lang t).1.find? l = some .folder) ∨
      ∃ compiled, (job.run lang t).2 = .ok compiled ∧ job.target.filePlace? = some l ∧ l ∈ job.target.trail ∧
        t.find? l ≠ some .folder ∧ (job.run lang t).1.find? l = some (saved compiled) := by
  rcases run_cases lang t job with ⟨fault, -, hrun⟩ | ⟨fault, hrun⟩ | ⟨compiled, loc, -, hspot, hrun⟩
  · exact .inl (by rw [hrun])
  · rw [hrun]
    exact (t.find?_makeRoom job.target l).imp_right .inl
  · rw [hrun]
    have hne := FileTree.ne_nil_of_spot hspot
    simp only [FileTree.find?_put _ hne]
    by_cases heq : l = loc
    · subst heq
      have hplace := FileTree.filePlace?_of_spot hspot
      refine .inr (.inr ⟨compiled, rfl, hplace.1, hplace.2, fun hfolder => ?_, by rw [if_pos rfl]⟩)
      rcases t.find?_makeRoom job.target l with hroom | ⟨-, hnone, -⟩
      · exact FileTree.not_folder_of_spot hspot (hroom.trans hfolder)
      · rw [hfolder] at hnone
        cases hnone
    · rw [if_neg heq]
      exact (t.find?_makeRoom job.target l).imp_right .inl

theorem find?_run_of_folder {l : Location} (h : t.find? l = some .folder) :
    (job.run lang t).1.find? l = some .folder := by
  rcases find?_run lang t job l with hl | ⟨-, hl, -⟩ | ⟨-, -, -, -, hl, -⟩
  · rw [hl, h]
  · rw [h] at hl
    cases hl
  · exact absurd h hl

/-- A job that succeeds has compiled its script and saved the program, which is found at the target as long as the
folders stay and something lies at the place. -/
theorem saved_of_run {compiled : Compiled} (h : (job.run lang t).2 = .ok compiled) :
    t.compileAt lang job.source = .ok compiled ∧
      ∃ loc, job.target.filePlace? = some loc ∧ (job.run lang t).1.find? loc = some (saved compiled) ∧
        ∀ u : FileTree, (∀ l, (job.run lang t).1.find? l = some .folder → u.find? l = some .folder) →
          ∀ e, u.find? loc = some e → u.lookup? job.target = some e := by
  rcases run_cases lang t job with ⟨fault, -, hrun⟩ | ⟨fault, hrun⟩ | ⟨compiled', loc, hcompile, hspot, hrun⟩
  · rw [hrun] at h
    cases h
  · rw [hrun] at h
    cases h
  · rw [hrun] at h
    cases h
    have hne := FileTree.ne_nil_of_spot hspot
    refine ⟨hcompile, loc, (FileTree.filePlace?_of_spot hspot).1, ?_, fun u hu e he => ?_⟩
    · rw [hrun, FileTree.find?_put _ hne, if_pos rfl]
    · refine FileTree.lookup?_of_spot hspot (fun l hl => hu l ?_) he
      rw [hrun, FileTree.find?_put _ hne, if_neg ?_, hl]
      rintro rfl
      exact FileTree.not_folder_of_spot hspot hl

theorem compileAt_of_toOption {compiled : Compiled} (h : (job.run lang t).2.toOption = some compiled) :
    t.compileAt lang job.source = .ok compiled := by
  cases hrun : (job.run lang t).2 with
  | error fault =>
    rw [hrun] at h
    cases h
  | ok compiled' =>
    rw [hrun] at h
    cases h
    exact (saved_of_run hrun).1

/-! ## A job in a tree that has grown -/

theorem compileAt_congr {source : Path} (h : u.readText source = t.readText source) :
    u.compileAt lang source = t.compileAt lang source := by
  simp only [FileTree.compileAt, h]

theorem compileAt_eq_ok_iff (t : FileTree) (lang : Language) (source : Path) (compiled : Compiled) :
    t.compileAt lang source = .ok compiled ↔ ∃ text, t.readText source = .ok text ∧
      (compile lang text).result = .ok compiled.program ∧ (compile lang text).warnings = compiled.warnings := by
  unfold FileTree.compileAt
  cases hread : t.readText source with
  | error fault => simp
  | ok text =>
    cases hresult : (compile lang text).result with
    | error fault => simp [hresult]
    | ok program =>
      obtain ⟨program', warnings⟩ := compiled
      simp [hresult]

/-- **What a job does to a tree it does to one that keeps its ways**, and succeeds in both or in none.  The fault is the
same if the script is read alike and room is made alike. -/
theorem moves_run (lang : Language) (hclosed : t.IsClosed) (hsource : t.WayKept u job.source)
    (htarget : t.PlaceKept u job.target) :
    FileTree.Moves t (job.run lang t).1 u (job.run lang u).1 ∧
      (job.run lang u).2.toOption = (job.run lang t).2.toOption ∧
      (u.readText job.source = t.readText job.source → (u.makeRoom job.target).2 = (t.makeRoom job.target).2 →
        (job.run lang u).2 = (job.run lang t).2) := by
  have hiff : ∀ compiled, u.compileAt lang job.source = .ok compiled ↔ t.compileAt lang job.source = .ok compiled := by
    intro compiled
    simp only [compileAt_eq_ok_iff, hsource.readText_eq_ok_iff hclosed]
  cases hcompile : t.compileAt lang job.source with
  | error fault =>
    obtain ⟨fault', hcompile'⟩ : ∃ fault', u.compileAt lang job.source = .error fault' := by
      cases h : u.compileAt lang job.source with
      | error fault' => exact ⟨fault', rfl⟩
      | ok compiled =>
        rw [(hiff compiled).1 h] at hcompile
        cases hcompile
    rw [run_of_fault hcompile, run_of_fault hcompile']
    refine ⟨.refl t u, rfl, fun hread _ => ?_⟩
    rw [compileAt_congr hread, hcompile] at hcompile'
    exact hcompile'.symm
  | ok compiled =>
    rw [run_of_compiled hcompile, run_of_compiled ((hiff compiled).2 hcompile)]
    obtain ⟨hmoves, hstop⟩ := FileTree.moves_makeRoom htarget.grown
    cases hroom : (t.makeRoom job.target).2 with
    | some fault =>
      obtain ⟨fault', hroom'⟩ : ∃ fault', (u.makeRoom job.target).2 = some fault' :=
        Option.isSome_iff_exists.1 (by rw [hstop, hroom]; rfl)
      rw [hroom']
      exact ⟨hmoves, rfl, fun _ hsame => by rw [Option.some.inj hsame]⟩
    | none =>
      have hroom' : (u.makeRoom job.target).2 = none := by simpa [hroom] using hstop
      rw [hroom', FileTree.spot_congr fun l hl => htarget.find?_makeRoom hroom hl]
      dsimp only
      split
      · exact ⟨hmoves, rfl, fun _ _ => rfl⟩
      · rename_i loc hspot
        have hne := FileTree.ne_nil_of_spot hspot
        have hplace := Path.place?_of_filePlace? (FileTree.filePlace?_of_spot hspot).1
        exact ⟨hmoves.put hne _ (htarget.place loc hplace), rfl, fun _ _ => rfl⟩

end Job

end SceneScript
