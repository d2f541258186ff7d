import SceneScript.Proofs.Batch.Folder

/-!
# Compiling a folder in place

If the programs are saved beside the scripts, the target of a script may be a script itself, which is then lost.  This
cannot happen exactly if the target extension does not end like the source extension.

    no target is a script, whatever lies in the folder ↔
      the last part of the target extension is not the source extension, case apart      (sparesScripts_iff)
-/

namespace SceneScript

namespace FileTree

variable {srcExt tgtExt : String}

theorem hasExtension_append {stem : List Char} (hstem : stem ≠ []) (ext : String) (tgt : List Char) :
    hasExtension ext (String.ofList (stem ++ '.' :: tgt)) = sameIgnoringCase (Path.lastPart tgt) ext.toList := by
  rw [hasExtension, String.toList_ofList, Path.splitName_append hstem]

/-- If the target of a script is a script, its new extension ends like the old one. -/
theorem sameIgnoringCase_of_target_eq {folder : Path} {names names' : Location} (h : IsScript srcExt names)
    (h' : IsScript srcExt names') (hext : tgtExt ≠ "") (hslash : '/' ∉ tgtExt.toList)
    (heq : (folder.below names).withExtension tgtExt = folder.below names') :
    sameIgnoringCase (Path.lastPart tgtExt.toList) srcExt.toList = true := by
  obtain ⟨base, hbase⟩ := folder.exists_base
  obtain ⟨dir, stem, hstem⟩ := h.exists_stem
  have hpieces := hstem.pieces_target hbase hext hslash
  rw [heq, hbase.pieces_below names' h'.ne_nil h'.named, List.append_cancel_left_eq] at hpieces
  have hnames : names' = dir ++ [String.ofList (Path.renamed stem tgtExt.toList)] := by
    refine List.map_injective_iff.2 (fun _ _ hcs => String.toList_inj.1 hcs) (hpieces.trans ?_)
    simp
  have hlast := h'.named _ (hnames ▸ List.mem_append_right _ List.mem_cons_self)
  have hdot : stem ≠ ['.'] := by
    rintro rfl
    rw [Path.renamed, if_pos rfl] at hlast
    exact absurd hlast.1 (by decide +kernel)
  have hextension := h'.extension
  rwa [hnames, List.getLast?_concat, Option.getD_some, Path.renamed, if_neg hdot,
    hasExtension_append hstem.stem_ne_nil] at hextension

/-- In place, a program is saved over no script unless a target is one. -/
theorem filePlace?_ne_of_target_ne {folder : Path} {names names' : Location} (h : IsScript srcExt names)
    (h' : IsScript srcExt names') (hext : tgtExt ≠ "") (hslash : '/' ∉ tgtExt.toList)
    (hne : (folder.below names).withExtension tgtExt ≠ folder.below names') {l : Location}
    (hl : (folder.below names').filePlace? = some l) :
    ((folder.below names).withExtension tgtExt).filePlace? ≠ some l := by
  obtain ⟨base, hbase⟩ := folder.exists_base
  obtain ⟨dir, stem, hstem⟩ := h.exists_stem
  obtain ⟨dir', stem', hstem'⟩ := h'.exists_stem
  obtain ⟨last, old, hpieces, -⟩ := hstem'.pieces_below hbase
  rw [List.append_assoc] at hpieces
  intro htarget
  exact hne (Path.eq_of_filePlace? (hstem.pieces_target hbase hext hslash) hpieces hstem.dir_not_dots
    hstem'.dir_not_dots htarget hl)

/-- A script, and a file that has the name of its target. -/
def clash (srcExt tgtExt : String) : FileTree :=
  ⟨[(["a." ++ srcExt], .file .empty), (["a." ++ tgtExt], .file .empty)]⟩

theorem isFileName_append {ext : String} (h : '/' ∉ ext.toList) : Path.IsFileName ("a." ++ ext) := by
  have htext : ("a." ++ ext).toList = 'a' :: '.' :: ext.toList := by simp
  refine ⟨?_, ?_⟩
  · rw [htext]
    simp [isDots, Path.isIdle]
  · rw [htext]
    simpa using h

theorem isProper_clash (hne : srcExt ≠ tgtExt) (hsrc : '/' ∉ srcExt.toList) (htgt : '/' ∉ tgtExt.toList) :
    (clash srcExt tgtExt).IsProper := by
  constructor
  · have hnames : "a." ++ srcExt ≠ "a." ++ tgtExt := by
      intro heq
      have htexts := congrArg String.toList heq
      rw [String.toList_append, String.toList_append, List.append_cancel_left_eq, String.toList_inj] at htexts
      exact hne htexts
    simpa [clash] using hnames
  · intro q hq name hname
    simp only [clash, List.mem_cons, List.not_mem_nil, or_false] at hq
    rcases hq with rfl | rfl
    · rw [List.mem_singleton.1 hname]
      exact isFileName_append hsrc
    · rw [List.mem_singleton.1 hname]
      exact isFileName_append htgt

theorem toLower_eq_dot {c : Char} (h : c.toLower = '.') : c = '.' := by
  unfold Char.toLower at h
  split at h
  · rename_i hc
    have hsum := congrArg UInt32.toNat (congrArg Char.val h)
    have hlow : 'A'.val.toNat ≤ c.val.toNat := UInt32.le_iff_toNat_le.1 hc.1
    have hhigh : c.val.toNat ≤ 'Z'.val.toNat := UInt32.le_iff_toNat_le.1 hc.2
    rw [UInt32.toNat_add] at hsum
    simp at hsum hlow hhigh
    omega
  · exact h

/-- An extension that is one, the case of letters apart, has no dot. -/
theorem dot_not_mem_of_same (h : sameIgnoringCase (Path.lastPart tgtExt.toList) srcExt.toList = true) :
    '.' ∉ srcExt.toList := by
  intro hdot
  rw [sameIgnoringCase, beq_iff_eq] at h
  have hmem : '.' ∈ srcExt.toList.map Char.toLower := List.mem_map.2 ⟨'.', hdot, rfl⟩
  rw [← h] at hmem
  obtain ⟨c, hc, hlower⟩ := List.mem_map.1 hmem
  rw [toLower_eq_dot hlower] at hc
  exact Path.dot_not_mem_lastPart _ hc

/-- The jobs of both files, if both are scripts. -/
def clashJobs (srcExt tgtExt : String) : List Job :=
  ((((clash srcExt tgtExt).below []).filter (·.1.length == 1)).filterMap (scriptNames? srcExt)).map
    (jobOf ⟨"."⟩ ⟨"."⟩ tgtExt)

theorem folderJobs_clash (srcExt tgtExt : String) :
    (clash srcExt tgtExt).folderJobs ⟨"."⟩ ⟨"."⟩ srcExt tgtExt false = .ok (clashJobs srcExt tgtExt) := by
  have hrefusal : refusal? ⟨"."⟩ = none := by decide +kernel
  have hpieces : (⟨"."⟩ : Path).pieces = [['.']] := by decide +kernel
  refine folderJobs_of_locate ?_
  rw [locate, hrefusal, hpieces]
  rfl

theorem mem_clashJobs {ext : String} (hentry : (["a." ++ ext], Entry.file .empty) ∈ (clash srcExt tgtExt).entries)
    (hsame : sameIgnoringCase (Path.lastPart ext.toList) srcExt.toList = true) :
    jobOf ⟨"."⟩ ⟨"."⟩ tgtExt ["a." ++ ext] ∈ clashJobs srcExt tgtExt := by
  have htext : "a." ++ ext = String.ofList (['a'] ++ '.' :: ext.toList) := by
    refine String.toList_inj.1 ?_
    simp
  refine List.mem_map_of_mem (List.mem_filterMap.2 ⟨_, List.mem_filter.2 ⟨mem_below_iff.2 ⟨?_, hentry⟩, rfl⟩, ?_⟩)
  · simp
  · refine scriptNames?_eq_some_iff.2 ⟨rfl, ⟨_, rfl⟩, ?_⟩
    rw [List.getLast?_singleton, Option.getD_some, htext, hasExtension_append (by simp), hsame]

/-- The target of the first file is the second. -/
theorem target_clash (hsrc : '/' ∉ srcExt.toList) (htgt : '/' ∉ tgtExt.toList) (hext : tgtExt ≠ "")
    (hdot : '.' ∉ srcExt.toList) :
    (jobOf ⟨"."⟩ ⟨"."⟩ tgtExt ["a." ++ srcExt]).target = (jobOf ⟨"."⟩ ⟨"."⟩ tgtExt ["a." ++ tgtExt]).source := by
  obtain ⟨base, hbase⟩ := Path.exists_base ⟨"."⟩
  have hstem : HasStem ["a." ++ srcExt] [] ['a'] := by
    refine ⟨by simp, "a." ++ srcExt, srcExt.toList, rfl, isFileName_append hsrc, ?_⟩
    exact Path.splitName_eq_some_iff.2 ⟨by simp, by simp, hdot⟩
  have hsource := hbase.pieces_below ["a." ++ tgtExt] (by simp)
    fun name hname => List.mem_singleton.1 hname ▸ isFileName_append htgt
  refine Path.pieces_inj.1 ?_
  rw [jobOf, jobOf, hstem.pieces_target hbase hext htgt, hsource]
  simp [Path.renamed]

/-- If the new extension ends like the old one, a target may be a script. -/
theorem exists_target_eq_source (hsrc : '/' ∉ srcExt.toList) (htgt : '/' ∉ tgtExt.toList) (hext : tgtExt ≠ "")
    (h : sameIgnoringCase (Path.lastPart tgtExt.toList) srcExt.toList = true) :
    ∃ a ∈ clashJobs srcExt tgtExt, ∃ b ∈ clashJobs srcExt tgtExt, a.target = b.source := by
  have hdot := dot_not_mem_of_same h
  refine ⟨_, mem_clashJobs (by simp [clash]) ?_, _, mem_clashJobs (by simp [clash]) h,
    target_clash hsrc htgt hext hdot⟩
  rw [Path.lastPart_of_no_dot hdot, sameIgnoringCase, beq_self_eq_true]

end FileTree

namespace Config

variable {c : Config}

/-- No target is the script of a job. -/
def SparesScripts (jobs : List Job) : Prop := ∀ a ∈ jobs, ∀ b ∈ jobs, a.target ≠ b.source

/-- **A folder can be compiled in place** without harm, whatever lies in it, exactly if the target extension does not
end like the source extension: what follows its last dot is another text, the case of letters apart.  Then no run of the
jobs, finished or not, changes a script. -/
theorem sparesScripts_iff (hc : c.fault? = none) (hsource : '/' ∉ c.sourceExtension.toList)
    (htarget : '/' ∉ c.targetExtension.toList) :
    ((∀ (t : FileTree) (folder : Path) (recursive : Bool) (jobs : List Job), t.IsProper →
        t.folderJobs folder folder c.sourceExtension c.targetExtension recursive = .ok jobs → SparesScripts jobs) ↔
      sameIgnoringCase (Path.lastPart c.targetExtension.toList) c.sourceExtension.toList = false) ∧
    ∀ (t : FileTree) (folder : Path) (recursive : Bool) (jobs : List Job), t.IsProper →
      t.folderJobs folder folder c.sourceExtension c.targetExtension recursive = .ok jobs → SparesScripts jobs →
      ∀ (lang : Language) (wanted : Nat) (schedule : List Nat), ∀ job ∈ jobs, ∀ (l : Location) (content : ByteArray),
        job.source.filePlace? = some l → t.find? l = some (.file content) →
        ((Pool.start jobs wanted t).run lang jobs schedule).tree.find? l = some (.file content) := by
  obtain ⟨hext, hne⟩ := extensions_of_fault? hc
  refine ⟨⟨fun h => ?_, fun h t folder recursive jobs ht hjobs => ?_⟩, ?_⟩
  · by_contra hsame
    rw [Bool.not_eq_false] at hsame
    obtain ⟨a, ha, b, hb, heq⟩ := FileTree.exists_target_eq_source hsource htarget hext hsame
    exact h _ _ _ _ (FileTree.isProper_clash hne hsource htarget) (FileTree.folderJobs_clash _ _) a ha b hb heq
  · obtain ⟨locs, -, hscripts, rfl⟩ := FileTree.folderJobs_eq_ok ht hjobs
    intro a ha b hb heq
    obtain ⟨names, hnames, rfl⟩ := List.mem_map.1 ha
    obtain ⟨names', hnames', rfl⟩ := List.mem_map.1 hb
    rw [FileTree.sameIgnoringCase_of_target_eq (hscripts names hnames) (hscripts names' hnames') hext htarget heq] at h
    cases h
  · intro t folder recursive jobs ht hjobs hspares lang wanted schedule job hjob l content hl hfile
    rw [(Pool.tracks_run (Pool.tracks_start lang jobs wanted t) schedule).tree]
    refine Job.find?_inTurn_of_file hfile fun other hother => ?_
    have hmem : other ∈ jobs := Pool.mem_of_mem_jobsAt hother
    obtain ⟨locs, -, hscripts, rfl⟩ := FileTree.folderJobs_eq_ok ht hjobs
    have hne := hspares other hmem job hjob
    obtain ⟨names, hnames, rfl⟩ := List.mem_map.1 hmem
    obtain ⟨names', hnames', rfl⟩ := List.mem_map.1 hjob
    exact FileTree.filePlace?_ne_of_target_ne (hscripts names hnames) (hscripts names' hnames') hext htarget hne hl

/-- With the extensions that are set by default no target is a script, and a script stays as it is. -/
theorem sparesScripts_desk :
    SparesScripts (deskJobsTo ⟨"s"⟩) ∧
      ((Pool.start (deskJobsTo ⟨"s"⟩) 2 Pool.desk).run .english (deskJobsTo ⟨"s"⟩) [0, 1, 1, 0]).tree.find?
        ["s", "b.gal"] = some (.file ":nothing".toUTF8) := by
  have h := sparesScripts_iff (c := default) (by decide +kernel) (by decide) (by decide)
  have hspares := h.1.2 (by decide +kernel) _ _ _ _ Pool.isProper_desk (folderJobs_desk ⟨"s"⟩)
  refine ⟨hspares, ?_⟩
  exact h.2 _ _ _ _ Pool.isProper_desk (folderJobs_desk ⟨"s"⟩) hspares .english 2 _
    (FileTree.jobOf ⟨"s"⟩ ⟨"s"⟩ "node" ["b.gal"]) (by simp [deskJobsTo]) _ _ (by decide +kernel) rfl

/-- A script is its own target if the extensions differ in the case of letters only, which is no reason to refuse
them. -/
theorem overwritten_twins : ({ default with targetExtension := "GAL" } : Config).fault? = none ∧ twins.IsProper ∧
    twins.folderJobs ⟨"d"⟩ ⟨"d"⟩ default.sourceExtension "GAL" false =
      .ok [⟨⟨"d/a.GAL"⟩, ⟨"d/a.GAL"⟩⟩, ⟨⟨"d/a.gal"⟩, ⟨"d/a.GAL"⟩⟩] := by
  refine ⟨by decide +kernel, isProper_twins, (folderJobs_twins ⟨"d"⟩ "GAL").trans ?_⟩
  decide +kernel

end Config

end SceneScript
