import SceneScript.Batch.Config
import SceneScript.Proofs.Batch.Sequential
import SceneScript.Proofs.Collect
import SceneScript.Proofs.Storage.Extension

/-!
# The jobs of a folder

A script is known by its folder and its stem, the name before the last dot; the rest of the name is the extension, whose
case does not matter.  Its target is known by the same two.  So scripts share a target exactly if they differ in
nothing but the case of their extensions, and only then a program may be lost.

    the targets are distinct ↔ the scripts are, without their extensions             (nodup_targets_iff)
    ..., and then every program that was saved is there in the end                   (nodup_targets_and_saved)
-/

namespace SceneScript

namespace FileTree

variable {t : FileTree} {loc : Location} {ext : String}

/-! ## Scripts -/

/-- The entries below a location, in the order in which the tree has them. -/
def listing (t : FileTree) (loc : Location) : List (Location × Entry) :=
  t.entries.filterMap fun p =>
    if loc.isPrefixOf p.1 && loc.length < p.1.length then some (p.1.drop loc.length, p.2) else none

theorem perm_below (t : FileTree) (loc : Location) : (t.below loc).Perm (t.listing loc) := List.mergeSort_perm _ _

theorem below_of_sorted (h : (t.listing loc).Pairwise fun a b => (!decide (b.1 < a.1)) = true) :
    t.below loc = t.listing loc := List.mergeSort_of_pairwise h

theorem drop_of_isPrefixOf {l names : Location}
    (h : (if loc.isPrefixOf l && loc.length < l.length then some (l.drop loc.length) else none) = some names) :
    l = loc ++ names ∧ names ≠ [] := by
  split at h
  · rename_i hprefix
    cases h
    rw [Bool.and_eq_true, List.isPrefixOf_iff_prefix, decide_eq_true_eq] at hprefix
    refine ⟨List.prefix_iff_eq_append.1 hprefix.1 |>.symm, fun hnil => ?_⟩
    have := List.drop_eq_nil_iff.1 hnil
    omega
  · cases h

theorem mem_below_iff {names : Location} {e : Entry} :
    (names, e) ∈ t.below loc ↔ names ≠ [] ∧ (loc ++ names, e) ∈ t.entries := by
  rw [(t.perm_below loc).mem_iff, listing, List.mem_filterMap]
  constructor
  · rintro ⟨⟨l, e'⟩, hentry, hq⟩
    split at hq
    · rename_i hprefix
      cases hq
      obtain ⟨hl, hne⟩ := drop_of_isPrefixOf (if_pos hprefix)
      exact ⟨hne, hl ▸ hentry⟩
    · cases hq
  · rintro ⟨hne, hentry⟩
    refine ⟨_, hentry, ?_⟩
    have hlength := List.length_pos_iff.2 hne
    have hprefix : (loc.isPrefixOf (loc ++ names) && decide (loc.length < (loc ++ names).length)) = true := by
      rw [Bool.and_eq_true, List.isPrefixOf_iff_prefix, decide_eq_true_eq, List.length_append]
      exact ⟨List.prefix_append _ _, by omega⟩
    rw [if_pos hprefix, List.drop_left]

theorem nodup_below (ht : t.IsProper) (loc : Location) : ((t.below loc).map Prod.fst).Nodup := by
  have hperm : ((t.below loc).map Prod.fst).Perm ((t.entries.map Prod.fst).filterMap fun l =>
      if loc.isPrefixOf l && loc.length < l.length then some (l.drop loc.length) else none) := by
    refine ((t.perm_below loc).map Prod.fst).trans (.of_eq ?_)
    rw [listing, List.map_filterMap, List.filterMap_map]
    refine List.filterMap_congr fun q _ => ?_
    simp only [Function.comp_apply]
    split <;> rfl
  rw [hperm.nodup_iff]
  refine ht.distinct.filterMap fun l l' names hl hl' => ?_
  rw [(drop_of_isPrefixOf hl).1, (drop_of_isPrefixOf hl').1]

/-- The names of a script, from the folder that is compiled. -/
structure IsScript (ext : String) (names : Location) : Prop where
  named : ∀ name ∈ names, Path.IsFileName name
  ne_nil : names ≠ []
  extension : hasExtension ext (names.getLast?.getD "") = true

theorem scriptNames?_eq_some_iff {q : Location × Entry} {names : Location} :
    scriptNames? ext q = some names ↔
      names = q.1 ∧ (∃ content, q.2 = .file content) ∧ hasExtension ext (names.getLast?.getD "") = true := by
  obtain ⟨l, content | _⟩ := q
  · rw [scriptNames?]
    split
    · rename_i hext
      simp only [Option.some.injEq, Entry.file.injEq, exists_eq', true_and]
      exact ⟨fun h => ⟨h.symm, h ▸ hext⟩, fun h => h.1.symm⟩
    · rename_i hext
      simp only [reduceCtorEq, false_iff, not_and]
      rintro rfl - hext'
      exact hext hext'
  · simp [scriptNames?]

theorem sublist_scriptNames? (ext : String) (listed : List (Location × Entry)) :
    (listed.filterMap (scriptNames? ext)).Sublist (listed.map Prod.fst) := by
  induction listed with
  | nil => exact .slnil
  | cons q listed ih =>
    rw [List.filterMap_cons, List.map_cons]
    split
    · exact ih.cons _
    · rename_i names hnames
      rw [(scriptNames?_eq_some_iff.1 hnames).1]
      exact ih.cons_cons _

/-- The scripts of a folder are listed once each. -/
theorem nodup_scripts (ht : t.IsProper) {folder : Path} {recursive : Bool} {locs : List Location}
    (h : t.scripts folder ext recursive = .ok locs) : locs.Nodup ∧ ∀ names ∈ locs, IsScript ext names := by
  obtain ⟨loc, listed, hsub, rfl⟩ : ∃ loc listed, List.Sublist listed (t.below loc) ∧
      locs = listed.filterMap (scriptNames? ext) := by
    unfold scripts at h
    split at h
    · cases h
    · rename_i loc hloc
      dsimp only at h
      split at h
      · split at h
        · cases h
        · cases h
          exact ⟨loc, _, .refl _, rfl⟩
      · cases h
        exact ⟨loc, _, List.filter_sublist, rfl⟩
  refine ⟨?_, fun names hnames => ?_⟩
  · exact (nodup_below ht loc).sublist ((sublist_scriptNames? ext listed).trans (hsub.map Prod.fst))
  · obtain ⟨⟨l, e⟩, hq, hscript⟩ := List.mem_filterMap.1 hnames
    obtain ⟨rfl, -, hext⟩ := scriptNames?_eq_some_iff.1 hscript
    obtain ⟨hne, hentry⟩ := mem_below_iff.1 (hsub.subset hq)
    exact ⟨fun name hname => ht.named _ hentry name (List.mem_append_right _ hname), hne, hext⟩

/-- The folder of a script, and its name before the last dot. -/
structure HasStem (names dir : Location) (stem : List Char) : Prop where
  named : ∀ name ∈ dir, Path.IsFileName name
  last : ∃ last old, names = dir ++ [last] ∧ Path.IsFileName last ∧ Path.splitName last.toList = (stem, some old)

theorem IsScript.exists_stem {names : Location} (h : IsScript ext names) : ∃ dir stem, HasStem names dir stem := by
  obtain ⟨hnamed, hne, hext⟩ := h
  have hsplit := List.dropLast_append_getLast hne
  rw [List.getLast?_eq_some_getLast hne, Option.getD_some, hasExtension] at hext
  split at hext
  · rename_i old hold
    obtain ⟨stem, hstem⟩ := Path.exists_stem hold
    exact ⟨names.dropLast, stem, fun name hname => hnamed name (List.dropLast_subset _ hname),
      _, old, hsplit.symm, hnamed _ (List.getLast_mem hne), hstem⟩
  · cases hext

namespace HasStem

variable {names names' dir dir' : Location} {stem stem' : List Char}

theorem names_named (h : HasStem names dir stem) : names ≠ [] ∧ ∀ name ∈ names, Path.IsFileName name := by
  obtain ⟨last, old, rfl, hlast, -⟩ := h.last
  refine ⟨by simp, fun name hname => ?_⟩
  rcases List.mem_append.1 hname with hname | hname
  · exact h.named name hname
  · rwa [List.mem_singleton.1 hname]

theorem stem_ne_nil (h : HasStem names dir stem) : stem ≠ [] := by
  obtain ⟨last, old, -, -, hsplit⟩ := h.last
  exact (Path.splitName_eq_some_iff.1 hsplit).2.1

theorem slash_not_mem (h : HasStem names dir stem) : '/' ∉ stem := by
  obtain ⟨last, old, -, hlast, hsplit⟩ := h.last
  intro hslash
  refine hlast.2 ?_
  rw [(Path.splitName_eq_some_iff.1 hsplit).1]
  exact List.mem_append_left _ hslash

theorem dir_not_dots (h : HasStem names dir stem) : ∀ piece ∈ dir.map String.toList, isDots piece = false := by
  intro piece hpiece
  obtain ⟨name, hname, rfl⟩ := List.mem_map.1 hpiece
  exact (h.named name hname).1

variable {folder : Path} {base : List (List Char)}

theorem pieces_below (hbase : folder.IsBase base) (h : HasStem names dir stem) :
    ∃ last old, (folder.below names).pieces = (base ++ dir.map String.toList) ++ [last] ∧ isDots last = false ∧
      Path.splitName last = (stem, some old) := by
  obtain ⟨last, old, hnames, hlast, hsplit⟩ := h.last
  refine ⟨last.toList, old, ?_, hlast.1, hsplit⟩
  rw [hbase.pieces_below names h.names_named.1 h.names_named.2, hnames]
  simp

theorem pieces_concat (hbase : folder.IsBase base) (h : HasStem names dir stem) {last : List Char}
    (hlast : '/' ∉ last) :
    (Path.ofPieces ((base ++ dir.map String.toList) ++ [last])).pieces =
      base ++ (dir.map String.toList ++ [last]) := by
  rw [Path.pieces_concat ?_ hlast, List.append_assoc]
  intro piece hpiece
  rcases List.mem_append.1 hpiece with hpiece | hpiece
  · exact hbase.slash_not_mem piece hpiece
  · obtain ⟨name, hname, rfl⟩ := List.mem_map.1 hpiece
    exact (h.named name hname).2

/-- The target of a script, by its pieces. -/
theorem pieces_target (hbase : folder.IsBase base) (h : HasStem names dir stem) (hext : ext ≠ "")
    (hslash : '/' ∉ ext.toList) :
    ((folder.below names).withExtension ext).pieces =
      base ++ (dir.map String.toList ++ [Path.renamed stem ext.toList]) := by
  obtain ⟨last, old, hpieces, hlast, hsplit⟩ := h.pieces_below hbase
  rw [Path.withExtension_eq hpieces hlast hsplit hext, h.pieces_concat hbase]
  unfold Path.renamed
  split
  · decide
  · simpa [h.slash_not_mem] using hslash

/-- A script without its extension, by its pieces. -/
theorem pieces_replaceExtension (hbase : folder.IsBase base) (h : HasStem names dir stem) :
    ((folder.below names).replaceExtension "").pieces = base ++ (dir.map String.toList ++ [stem]) := by
  obtain ⟨last, old, hpieces, hlast, hsplit⟩ := h.pieces_below hbase
  rw [Path.replaceExtension_eq hpieces hlast, hsplit, if_pos (by rfl), List.append_nil,
    h.pieces_concat hbase h.slash_not_mem]

theorem pieces_inj {last last' : List Char} :
    base ++ (dir.map String.toList ++ [last]) = base ++ (dir'.map String.toList ++ [last']) ↔
      dir = dir' ∧ last = last' := by
  rw [List.append_cancel_left_eq]
  refine ⟨fun h => ?_, fun ⟨hdir, hlast⟩ => by rw [hdir, hlast]⟩
  obtain ⟨hdir, hlast⟩ := List.append_inj' h rfl
  exact ⟨List.map_injective_iff.2 (fun _ _ hcs => String.toList_inj.1 hcs) hdir, List.singleton_inj.1 hlast⟩

theorem target_eq_iff (folder : Path) (h : HasStem names dir stem) (h' : HasStem names' dir' stem') (hext : ext ≠ "")
    (hslash : '/' ∉ ext.toList) :
    (folder.below names).withExtension ext = (folder.below names').withExtension ext ↔ dir = dir' ∧ stem = stem' := by
  obtain ⟨base, hbase⟩ := folder.exists_base
  rw [← Path.pieces_inj, h.pieces_target hbase hext hslash, h'.pieces_target hbase hext hslash, pieces_inj,
    Path.renamed_inj (by simpa using hext) h.stem_ne_nil h'.stem_ne_nil]

theorem replaceExtension_eq_iff (folder : Path) (h : HasStem names dir stem) (h' : HasStem names' dir' stem') :
    (folder.below names).replaceExtension "" = (folder.below names').replaceExtension "" ↔
      dir = dir' ∧ stem = stem' := by
  obtain ⟨base, hbase⟩ := folder.exists_base
  rw [← Path.pieces_inj, h.pieces_replaceExtension hbase, h'.pieces_replaceExtension hbase, pieces_inj]

end HasStem

/-! ## Jobs -/

variable {source target : Path} {srcExt tgtExt : String} {recursive : Bool} {jobs : List Job}

/-- The job of a script. -/
def jobOf (source target : Path) (tgtExt : String) (names : Location) : Job :=
  ⟨source.below names, (target.below names).withExtension tgtExt⟩

/-- The jobs of the scripts in a folder, without those below. -/
theorem folderJobs_of_locate {loc : Location} (h : t.locate source = .ok loc) :
    t.folderJobs source target srcExt tgtExt false =
      .ok ((((t.below loc).filter (·.1.length == 1)).filterMap (scriptNames? srcExt)).map
        (jobOf source target tgtExt)) := by
  rw [folderJobs, scripts, h]
  rfl

theorem folderJobs_eq_ok (ht : t.IsProper) (h : t.folderJobs source target srcExt tgtExt recursive = .ok jobs) :
    ∃ locs : List Location, locs.Nodup ∧ (∀ names ∈ locs, IsScript srcExt names) ∧
      jobs = locs.map (jobOf source target tgtExt) := by
  rw [folderJobs, map_eq_ok_iff] at h
  obtain ⟨locs, hlocs, rfl⟩ := h
  exact ⟨locs, (nodup_scripts ht hlocs).1, (nodup_scripts ht hlocs).2, rfl⟩

/-- **Targets are as distinct as the scripts are without their extensions.** -/
theorem nodup_targets_iff (ht : t.IsProper) (h : t.folderJobs source target srcExt tgtExt recursive = .ok jobs)
    (hext : tgtExt ≠ "") (hslash : '/' ∉ tgtExt.toList) :
    (jobs.map Job.target).Nodup ↔ (jobs.map fun job => job.source.replaceExtension "").Nodup := by
  obtain ⟨locs, -, hscripts, rfl⟩ := folderJobs_eq_ok ht h
  unfold List.Nodup
  rw [List.map_map, List.map_map, List.pairwise_map, List.pairwise_map]
  refine List.Pairwise.iff_of_mem fun {names names'} hnames hnames' => not_congr ?_
  obtain ⟨dir, stem, hstem⟩ := (hscripts names hnames).exists_stem
  obtain ⟨dir', stem', hstem'⟩ := (hscripts names' hnames').exists_stem
  exact (hstem.target_eq_iff target hstem' hext hslash).trans (hstem.replaceExtension_eq_iff source hstem').symm

/-- Targets that are distinct are at different places. -/
theorem separate_of_nodup (ht : t.IsProper) (h : t.folderJobs source target srcExt tgtExt recursive = .ok jobs)
    (hext : tgtExt ≠ "") (hslash : '/' ∉ tgtExt.toList) (hnodup : (jobs.map Job.target).Nodup) :
    jobs.Pairwise Job.Separate := by
  obtain ⟨locs, -, hscripts, rfl⟩ := folderJobs_eq_ok ht h
  obtain ⟨base, hbase⟩ := target.exists_base
  rw [List.map_map, List.Nodup, List.pairwise_map] at hnodup
  refine List.pairwise_map.2 (hnodup.imp_of_mem fun {names names'} hnames hnames' hne l hl hl' => hne ?_)
  obtain ⟨dir, stem, hstem⟩ := (hscripts names hnames).exists_stem
  obtain ⟨dir', stem', hstem'⟩ := (hscripts names' hnames').exists_stem
  exact Path.eq_of_filePlace? (hstem.pieces_target hbase hext hslash) (hstem'.pieces_target hbase hext hslash)
    hstem.dir_not_dots hstem'.dir_not_dots hl hl'

end FileTree

namespace Config

variable {c : Config} {t : FileTree} {source target : Path} {recursive : Bool} {jobs : List Job}

theorem extensions_of_fault? (h : c.fault? = none) :
    c.targetExtension ≠ "" ∧ c.sourceExtension ≠ c.targetExtension := by
  unfold fault? at h
  split at h
  · cases h
  · split_ifs at h with hjobs hsource htarget hsame
    refine ⟨fun hempty => htarget ?_, hsame⟩
    rw [hempty]
    rfl

/-- **No program is lost** in a folder run exactly if no two scripts differ in nothing but their extensions, of which
the case of letters is free: then the targets are distinct and at different places, and whatever the workers do, each
program that was saved is at its target in the end, and so there is one for each script that is reported as
compiled. -/
theorem nodup_targets_and_saved (hc : c.fault? = none) (hslash : '/' ∉ c.targetExtension.toList) (ht : t.IsProper)
    (hjobs : t.folderJobs source target c.sourceExtension c.targetExtension recursive = .ok jobs) :
    ((jobs.map Job.target).Nodup ↔ (jobs.map fun job => job.source.replaceExtension "").Nodup) ∧
      ((jobs.map Job.target).Nodup → jobs.Pairwise Job.Separate ∧
        ∀ (lang : Language) (wanted : Nat) (schedule : List Nat),
          ((Pool.start jobs wanted t).run lang jobs schedule).isDone = true →
          (∀ i compiled, (i, .ok compiled) ∈ ((Pool.start jobs wanted t).run lang jobs schedule).results →
            ∃ job, jobs[i]? = some job ∧
              ((Pool.start jobs wanted t).run lang jobs schedule).tree.lookup? job.target =
                some (Job.saved compiled)) ∧
          ∀ source ∈
              (Report.ofResults jobs ((Pool.start jobs wanted t).run lang jobs schedule).results).succeeded,
            ∃ job ∈ jobs, job.source = source ∧ ∃ compiled,
              ((Pool.start jobs wanted t).run lang jobs schedule).tree.lookup? job.target =
                some (Job.saved compiled)) := by
  obtain ⟨hext, -⟩ := extensions_of_fault? hc
  refine ⟨FileTree.nodup_targets_iff ht hjobs hext hslash, fun hnodup => ?_⟩
  have hseparate := FileTree.separate_of_nodup ht hjobs hext hslash hnodup
  refine ⟨hseparate, fun lang wanted schedule hdone => ?_⟩
  have htracks := Pool.tracks_run (Pool.tracks_start lang jobs wanted t) schedule
  have horder := htracks.accounts.perm_of_isDone (Pool.manned_run lang jobs wanted t schedule) hdone
  have hsaved : ∀ i compiled, (i, .ok compiled) ∈ ((Pool.start jobs wanted t).run lang jobs schedule).results →
      ∃ job, jobs[i]? = some job ∧
        ((Pool.start jobs wanted t).run lang jobs schedule).tree.lookup? job.target = some (Job.saved compiled) := by
    intro i compiled hmem
    obtain ⟨job, hjob, hzip⟩ := htracks.mem_results hmem
    exact ⟨job, hjob, htracks.lookup?_target horder hseparate hzip⟩
  exact ⟨hsaved, fun source hsource => (htracks.accounted horder).of_mem_succeeded hsaved hsource⟩

/-- The jobs of the scripts on the desk. -/
def deskJobsTo (target : Path) : List Job := [["a.gal"], ["b.gal"]].map (FileTree.jobOf ⟨"s"⟩ target "node")

theorem folderJobs_desk (target : Path) :
    Pool.desk.folderJobs ⟨"s"⟩ target "gal" "node" false = .ok (deskJobsTo target) := by
  have hlocate : Pool.desk.locate ⟨"s"⟩ = .ok ["s"] := by decide
  have hbelow : Pool.desk.below ["s"] = Pool.desk.listing ["s"] := FileTree.below_of_sorted (by decide)
  have hscripts : ((Pool.desk.listing ["s"]).filter (·.1.length == 1)).filterMap (scriptNames? "gal") =
      [["a.gal"], ["b.gal"]] := by decide
  rw [FileTree.folderJobs_of_locate hlocate, hbelow, hscripts, deskJobsTo]

/-- The programs of two scripts, saved in another folder by workers that take turns. -/
theorem saved_desk :
    ((deskJobsTo ⟨"o"⟩).map Job.target).Nodup ∧ (deskJobsTo ⟨"o"⟩).Pairwise Job.Separate ∧
      (∀ i compiled, (i, .ok compiled) ∈ ((Pool.start (deskJobsTo ⟨"o"⟩) 2 Pool.desk).run .english (deskJobsTo ⟨"o"⟩)
          (Pool.turns (deskJobsTo ⟨"o"⟩) 2)).results →
        ∃ job, (deskJobsTo ⟨"o"⟩)[i]? = some job ∧ ((Pool.start (deskJobsTo ⟨"o"⟩) 2 Pool.desk).run .english
          (deskJobsTo ⟨"o"⟩) (Pool.turns (deskJobsTo ⟨"o"⟩) 2)).tree.lookup? job.target =
            some (Job.saved compiled)) ∧
      ∀ source ∈ (Report.ofResults (deskJobsTo ⟨"o"⟩) ((Pool.start (deskJobsTo ⟨"o"⟩) 2 Pool.desk).run .english
          (deskJobsTo ⟨"o"⟩) (Pool.turns (deskJobsTo ⟨"o"⟩) 2)).results).succeeded,
        ∃ job ∈ deskJobsTo ⟨"o"⟩, job.source = source ∧ ∃ compiled,
          ((Pool.start (deskJobsTo ⟨"o"⟩) 2 Pool.desk).run .english (deskJobsTo ⟨"o"⟩)
            (Pool.turns (deskJobsTo ⟨"o"⟩) 2)).tree.lookup? job.target = some (Job.saved compiled) := by
  have h := nodup_targets_and_saved (c := default) (by decide +kernel) (by decide) Pool.isProper_desk
    (folderJobs_desk ⟨"o"⟩)
  have hnodup := h.1.2 (by decide +kernel)
  exact ⟨hnodup, (h.2 hnodup).1, (h.2 hnodup).2 .english 2 _ (Pool.isDone_turns _ _ _ _)⟩

/-- Two scripts whose names differ in the case of letters. -/
def twins : FileTree := ⟨[(["d"], .folder), (["d", "a.GAL"], .file .empty), (["d", "a.gal"], .file .empty)]⟩

theorem isProper_twins : twins.IsProper := by decide

/-- The scripts of the twins, whatever they are compiled to. -/
theorem folderJobs_twins (target : Path) (ext : String) : twins.folderJobs ⟨"d"⟩ target "gal" ext false =
    .ok ([["a.GAL"], ["a.gal"]].map (FileTree.jobOf ⟨"d"⟩ target ext)) := by
  have hlocate : twins.locate ⟨"d"⟩ = .ok ["d"] := by decide
  have hbelow : twins.below ["d"] = twins.listing ["d"] := FileTree.below_of_sorted (by decide)
  have hscripts : ((twins.listing ["d"]).filter (·.1.length == 1)).filterMap (scriptNames? "gal") =
      [["a.GAL"], ["a.gal"]] := by decide
  rw [FileTree.folderJobs_of_locate hlocate, hbelow, hscripts]

/-- Two scripts share a target, with the extensions that are set by default. -/
theorem shared_target_twins : default.fault? = none ∧ twins.IsProper ∧
    twins.folderJobs ⟨"d"⟩ ⟨"o"⟩ default.sourceExtension default.targetExtension false =
      .ok [⟨⟨"d/a.GAL"⟩, ⟨"o/a.node"⟩⟩, ⟨⟨"d/a.gal"⟩, ⟨"o/a.node"⟩⟩] := by
  refine ⟨by decide +kernel, isProper_twins, (folderJobs_twins ⟨"o"⟩ "node").trans ?_⟩
  decide +kernel

end Config

end SceneScript
