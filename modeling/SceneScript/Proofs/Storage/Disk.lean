import SceneScript.Proofs.Storage.Changes
import SceneScript.Proofs.Storage.Extension

/-!
# Disks

On a disk every file and folder lies in a folder, has a location of its own, and is reached by proper names.  Making
folders and writing files keep it so.

    t.IsSound → (t.createFolders p).1.IsSound                        (IsSound.createFolders)
    t.IsSound → t.write p content = .ok u → u.IsSound                (IsSound.write)
-/

namespace SceneScript

namespace FileTree

variable {t here : FileTree} {loc : Location} {pieces : List (List Char)} {p : Path}

/-- Each entry has a location of its own, made of proper names. -/
structure IsProper (t : FileTree) : Prop where
  distinct : (t.entries.map Prod.fst).Nodup
  named : ∀ q ∈ t.entries, ∀ name ∈ q.1, Path.IsFileName name

instance (t : FileTree) : Decidable t.IsProper :=
  decidable_of_iff ((t.entries.map Prod.fst).Nodup ∧ ∀ q ∈ t.entries, ∀ name ∈ q.1, Path.IsFileName name)
    ⟨fun h => ⟨h.1, h.2⟩, fun h => ⟨h.distinct, h.named⟩⟩

/-- A tree as a disk holds it. -/
structure IsSound (t : FileTree) : Prop where
  closed : t.IsClosed
  proper : t.IsProper

/-! ## Entries -/

theorem mem_locations_of_find? (hne : loc ≠ []) (h : t.find? loc ≠ none) : loc ∈ t.entries.map Prod.fst := by
  rw [find?_of_ne_nil _ hne, ne_eq, Option.map_eq_none_iff] at h
  obtain ⟨q, hq⟩ := Option.ne_none_iff_exists'.1 h
  have hloc : q.1 = loc := by simpa using List.find?_some hq
  exact hloc ▸ List.mem_map_of_mem (List.mem_of_find?_eq_some hq)

theorem find?_ne_none_of_mem (h : loc ∈ t.entries.map Prod.fst) : t.find? loc ≠ none := by
  obtain ⟨q, hq, rfl⟩ := List.mem_map.1 h
  by_cases hne : q.1 = []
  · simp [hne]
  · rw [find?_of_ne_nil _ hne, ne_eq, Option.map_eq_none_iff, List.find?_eq_none]
    exact fun hnone => hnone q hq (by simp)

/-- What is found is reached by proper names. -/
theorem IsProper.named_of_find? (h : t.IsProper) (hfound : t.find? loc ≠ none) :
    ∀ name ∈ loc, Path.IsFileName name := by
  by_cases hne : loc = []
  · simp [hne]
  · obtain ⟨q, hq, rfl⟩ := List.mem_map.1 (mem_locations_of_find? hne hfound)
    exact h.named q hq

theorem IsProper.add (h : t.IsProper) (hnone : t.find? loc = none) (hnamed : ∀ name ∈ loc, Path.IsFileName name)
    (e : Entry) : (t.add loc e).IsProper := by
  constructor
  · exact List.nodup_cons.2 ⟨fun hmem => find?_ne_none_of_mem hmem hnone, h.distinct⟩
  · exact List.forall_mem_cons.2 ⟨hnamed, h.named⟩

theorem IsProper.put (h : t.IsProper) (hnamed : ∀ name ∈ loc, Path.IsFileName name) (e : Entry) :
    (t.put loc e).IsProper := by
  constructor
  · refine List.nodup_cons.2 ⟨fun hmem => ?_, h.distinct.sublist (List.filter_sublist.map Prod.fst)⟩
    obtain ⟨q, hq, hloc⟩ := List.mem_map.1 hmem
    simpa [hloc] using (List.mem_filter.1 hq).2
  · exact List.forall_mem_cons.2 ⟨hnamed, fun q hq => h.named q (List.mem_filter.1 hq).1⟩

/-- A tree stays closed if an entry is put into a folder, in the place of no other folder. -/
theorem IsClosed.of_find? {u : FileTree} (h : t.IsClosed) (hfolder : t.find? loc = some .folder) {name : String}
    {e : Entry} (hfind : ∀ l, u.find? l = if l = loc ++ [name] then some e else t.find? l)
    (he : e = .folder ∨ t.find? (loc ++ [name]) ≠ some .folder) : u.IsClosed := by
  intro l last hfound
  have hparent : t.find? l = some .folder := by
    rw [hfind] at hfound
    split at hfound
    · rename_i heq
      rwa [(List.append_inj' heq rfl).1]
    · exact h l last hfound
  rw [hfind]
  split
  · rename_i heq
    rw [he.resolve_right fun hnot => hnot (heq ▸ hparent)]
  · exact hparent

theorem isSound_empty : empty.IsSound := by
  refine ⟨isClosed_of_forall ?_, ⟨List.nodup_nil, ?_⟩⟩
  · simp [empty]
  · simp [empty]

/-! ## Making folders -/

theorem isFileName_of_piece {piece : List Char} (hdots : isDots piece = false) (hslash : '/' ∉ piece) :
    Path.IsFileName (String.ofList piece) := by
  refine ⟨?_, ?_⟩
  · rwa [String.toList_ofList]
  · rwa [String.toList_ofList]

theorem IsSound.named_concat (h : t.IsSound) (hloc : t.find? loc = some .folder) {piece : List Char}
    (hdots : isDots piece = false) (hslash : '/' ∉ piece) :
    ∀ name ∈ loc ++ [String.ofList piece], Path.IsFileName name := by
  intro name hname
  rcases List.mem_append.1 hname with hname | hname
  · exact h.proper.named_of_find? (by simp [hloc]) name hname
  · rw [List.mem_singleton.1 hname]
    exact isFileName_of_piece hdots hslash

theorem IsSound.makeFrom (h : t.IsSound) (hhere : t.Shows loc here) (hloc : t.find? loc = some .folder)
    (hpieces : ∀ piece ∈ pieces, '/' ∉ piece) (made : Bool) : (t.makeFrom made loc here pieces).1.IsSound := by
  induction loc, pieces using Path.followed_induction generalizing t here made with
  | nil loc => exact h
  | idle loc piece pieces hidle ih =>
    rw [makeFrom_idle hidle]
    exact ih h hhere hloc (fun q hq => hpieces q (List.mem_cons_of_mem _ hq)) made
  | outside pieces => exact h
  | back loc pieces hne ih =>
    rw [makeFrom_back hne]
    refine ih h (t.shows_under _) ?_ (fun q hq => hpieces q (List.mem_cons_of_mem _ hq)) made
    refine h.closed loc.dropLast (loc.getLast hne) ?_
    rw [List.dropLast_append_getLast hne, hloc]
    simp
  | name loc piece pieces hname ih =>
    have hrest := fun q hq => hpieces q (List.mem_cons_of_mem piece hq)
    cases hlong : isTooLong piece with
    | true =>
      rw [makeFrom_tooLong hname hlong]
      exact h
    | false =>
      rw [makeFrom_name hname hlong hhere]
      split
      · rename_i hfolder
        exact ih h (hhere.inside _) hfolder hrest made
      · exact h
      · rename_i hnone
        have hne : loc ++ [String.ofList piece] ≠ [] := by simp
        have hfind := t.find?_add hne .folder
        refine ih ⟨h.closed.of_find? hloc hfind (.inl rfl), h.proper.add hnone ?_ _⟩ (hhere.add _ _) ?_ hrest true
        · exact h.named_concat hloc hname (hpieces piece List.mem_cons_self)
        · rw [hfind, if_pos rfl]

theorem IsSound.createFolders (h : t.IsSound) (p : Path) : (t.createFolders p).1.IsSound := by
  unfold FileTree.createFolders
  split
  · exact h
  · exact h.makeFrom t.shows_self t.find?_nil (fun _ hpiece => Path.not_mem_piece hpiece) false

/-! ## Writing -/

theorem IsSound.put (h : t.IsSound) (hspot : t.spot p = .ok loc) (e : Entry) : (t.put loc e).IsSound := by
  obtain ⟨init, last, folder, -, hpieces, hlast, -, -, hfolder, rfl, hfree⟩ := spot_eq_ok hspot
  refine ⟨h.closed.of_find? hfolder (t.find?_put (by simp) e) (.inr hfree), h.proper.put ?_ e⟩
  exact h.named_concat hfolder hlast (Path.not_mem_piece (p := p) (by simp [hpieces]))

theorem IsSound.write {u : FileTree} {content : ByteArray} (h : t.IsSound) (hwrite : t.write p content = .ok u) :
    u.IsSound := by
  rw [write_eq] at hwrite
  cases hspot : t.spot p with
  | error fault =>
    rw [hspot] at hwrite
    cases hwrite
  | ok loc =>
    rw [hspot] at hwrite
    cases hwrite
    exact h.put hspot _

end FileTree

/-- Files and folders on a disk. -/
structure Disk where
  tree : FileTree
  sound : tree.IsSound

instance : Inhabited Disk := ⟨⟨.empty, FileTree.isSound_empty⟩⟩

end SceneScript
