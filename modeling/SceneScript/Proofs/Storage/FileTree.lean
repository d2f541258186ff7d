import Mathlib.Data.List.Induction
import SceneScript.Proofs.Storage.Path

/-!
# What a path depends on

Following a path looks at the places of its trail and at nothing else, so two trees that agree there are treated
alike.  A tree that has grown some folders is treated alike, too: unless a path turns back in such a folder, or leads to
it, or has a name that is too long, it cannot tell a folder that is missing from one that is empty.

    (∀ l ∈ p.trail, u.find? l = t.find? l) → u.readText p = t.readText p             (readText_congr)
    t.WayKept u p → (u.readText p = .ok text ↔ t.readText p = .ok text)              (WayKept.readText_eq_ok_iff)
-/

namespace SceneScript

namespace FileTree

variable {t u here here' : FileTree} {loc : Location} {piece : List Char} {pieces : List (List Char)}

/-! ## Looking up -/

@[simp] theorem find?_nil (t : FileTree) : t.find? [] = some .folder := rfl

theorem find?_of_ne_nil (t : FileTree) {l : Location} (h : l ≠ []) :
    t.find? l = (t.entries.find? fun p => p.1 = l).map Prod.snd := by
  cases l with
  | nil => exact absurd rfl h
  | cons name names => rfl

theorem find?_add (t : FileTree) {loc : Location} (h : loc ≠ []) (e : Entry) (l : Location) :
    (t.add loc e).find? l = if l = loc then some e else t.find? l := by
  by_cases hl : l = []
  · subst hl
    rw [if_neg (Ne.symm h), find?_nil, find?_nil]
  · rw [find?_of_ne_nil _ hl, find?_of_ne_nil _ hl, add, List.find?_cons]
    by_cases heq : l = loc
    · simp [heq]
    · simp [heq, Ne.symm heq]

theorem find?_put (t : FileTree) {loc : Location} (h : loc ≠ []) (e : Entry) (l : Location) :
    (t.put loc e).find? l = if l = loc then some e else t.find? l := by
  by_cases heq : l = loc
  · subst heq
    rw [find?_of_ne_nil _ h, if_pos rfl]
    simp [put]
  · by_cases hl : l = []
    · subst hl
      rw [if_neg heq, find?_nil, find?_nil]
    · rw [find?_of_ne_nil _ hl, find?_of_ne_nil _ hl, if_neg heq, put, List.find?_cons]
      simp only [Ne.symm heq, decide_false, List.find?_filter]
      congr 2
      funext p
      by_cases hp : p.1 = l
      · simp [hp, heq]
      · simp [hp]

theorem find?_inside (t : FileTree) (name : String) {names : Location} (h : names ≠ []) :
    (t.inside name).find? names = t.find? (name :: names) := by
  rw [find?_of_ne_nil _ h, find?_of_ne_nil _ (List.cons_ne_nil _ _), inside]
  induction t.entries with
  | nil => rfl
  | cons p entries ih =>
    obtain ⟨l, e⟩ := p
    cases l with
    | nil => simpa [List.find?_cons] using ih
    | cons first rest =>
      by_cases hfirst : first = name
      · by_cases hrest : rest = names
        · simp [hfirst, hrest]
        · simpa [List.find?_cons, hfirst, hrest] using ih
      · simpa [List.find?_cons, hfirst] using ih

/-- `here` is what lies below a location. -/
def Shows (t : FileTree) (loc : Location) (here : FileTree) : Prop :=
  ∀ name names, here.find? (name :: names) = t.find? (loc ++ name :: names)

theorem shows_self (t : FileTree) : t.Shows [] t := fun _ _ => rfl

theorem Shows.inside (h : t.Shows loc here) (name : String) :
    t.Shows (loc ++ [name]) (here.inside name) := by
  intro first names
  rw [find?_inside _ _ (List.cons_ne_nil _ _), h, List.append_assoc, List.singleton_append]

theorem Shows.foldl_inside (h : t.Shows loc here) (names : Location) :
    t.Shows (loc ++ names) (names.foldl FileTree.inside here) := by
  induction names generalizing loc here with
  | nil => rwa [List.append_nil]
  | cons name names ih =>
    have hnext := ih (h.inside name)
    rwa [List.append_assoc, List.singleton_append] at hnext

theorem shows_under (t : FileTree) (loc : Location) : t.Shows loc (t.under loc) :=
  t.shows_self.foldl_inside loc

theorem Shows.add (h : t.Shows loc here) (name : String) (e : Entry) :
    (t.add (loc ++ [name]) e).Shows (loc ++ [name]) (here.inside name) := by
  intro first names
  rw [find?_add _ (by simp), if_neg (by simp)]
  exact h.inside name first names

/-- Every entry lies in a folder. -/
def IsClosed (t : FileTree) : Prop :=
  ∀ loc name, t.find? (loc ++ [name]) ≠ none → t.find? loc = some .folder

theorem isClosed_of_forall (h : ∀ q ∈ t.entries, t.find? q.1.dropLast = some .folder) : t.IsClosed := by
  intro loc name hsome
  rw [find?_of_ne_nil _ (by simp)] at hsome
  cases hfind : t.entries.find? fun q => q.1 = loc ++ [name] with
  | none =>
    rw [hfind] at hsome
    exact absurd rfl hsome
  | some q =>
    have hq : q.1 = loc ++ [name] := by simpa using List.find?_some hfind
    have hfolder := h q (List.mem_of_find?_eq_some hfind)
    rwa [hq, List.dropLast_concat] at hfolder

theorem IsClosed.find?_eq_none (h : t.IsClosed) {l : Location} (hloc : t.find? loc = none) (hl : loc <+: l) :
    t.find? l = none := by
  obtain ⟨names, rfl⟩ := hl
  induction names using List.reverseRecOn with
  | nil => rwa [List.append_nil]
  | append_singleton names name ih =>
    by_contra hsome
    rw [← List.append_assoc] at hsome
    rw [h _ _ hsome] at ih
    cases ih

/-- `u` has at a location what `t` has, or a folder where `t` has nothing. -/
def Grown (t u : FileTree) (loc : Location) : Prop :=
  u.find? loc = t.find? loc ∨ t.find? loc = none ∧ u.find? loc = some .folder

/-- A file lies at a location. -/
def HasFile (t : FileTree) (loc : Location) : Prop := ∃ content, t.find? loc = some (.file content)

theorem Grown.hasFile_iff (h : t.Grown u loc) : u.HasFile loc ↔ t.HasFile loc := by
  rcases h with hsame | ⟨hnone, hfolder⟩
  · rw [HasFile, HasFile, hsame]
  · simp [HasFile, hnone, hfolder]

/-! ## Following names -/

theorem walk_idle (h : Path.isIdle piece = true) : t.walk loc here (piece :: pieces) = t.walk loc here pieces := by
  rw [walk, if_pos h]

theorem walk_back (h : loc ≠ []) :
    t.walk loc here (['.', '.'] :: pieces) = t.walk loc.dropLast (t.under loc.dropLast) pieces := by
  rw [walk, if_neg (by decide), if_pos rfl, if_neg (by simpa using h)]

theorem walk_name (h : isDots piece = false) (hhere : t.Shows loc here) :
    t.walk loc here (piece :: pieces) =
      if isTooLong piece then .error .nameTooLong
      else
        match t.find? (loc ++ [String.ofList piece]) with
        | none => .error .notFound
        | some .folder => t.walk (loc ++ [String.ofList piece]) (here.inside (String.ofList piece)) pieces
        | some (.file _) =>
          if pieces.isEmpty then .ok (loc ++ [String.ofList piece]) else .error .notDirectory := by
  obtain ⟨hidle, hdots⟩ := Path.isDots_eq_false_iff.1 h
  rewrite [walk, hidle, if_neg (by decide), if_neg hdots, ← hhere]
  rfl

/-- **Following names looks at their trail only.** -/
theorem walk_congr (ht : t.Shows loc here) (hu : u.Shows loc here')
    (h : ∀ l ∈ Path.trailFrom loc pieces, u.find? l = t.find? l) :
    u.walk loc here' pieces = t.walk loc here pieces := by
  induction loc, pieces using Path.followed_induction generalizing here here' with
  | nil loc => rfl
  | idle loc piece pieces hidle ih =>
    rw [Path.trailFrom_idle hidle] at h
    rw [walk_idle hidle, walk_idle hidle, ih ht hu h]
  | outside pieces => rfl
  | back loc pieces hloc ih =>
    rw [Path.trailFrom_back hloc] at h
    rw [walk_back hloc, walk_back hloc, ih (t.shows_under _) (u.shows_under _) h]
  | name loc piece pieces hname ih =>
    rw [Path.trailFrom_name hname] at h
    rw [walk_name hname ht, walk_name hname hu, h _ List.mem_cons_self,
      ih (ht.inside _) (hu.inside _) fun l hl => h l (List.mem_cons_of_mem _ hl)]

/-- Names that can be followed lead through folders, to their place. -/
theorem trail_of_walk (hhere : t.Shows loc here) {l : Location} (h : t.walk loc here pieces = .ok l) :
    Path.placeFrom? loc pieces = some l ∧
      ∀ k ∈ Path.trailFrom loc pieces, t.find? k = some .folder ∨ k = l ∧ t.find? k ≠ none := by
  induction loc, pieces using Path.followed_induction generalizing here with
  | nil loc =>
    cases h
    exact ⟨rfl, by simp⟩
  | idle loc piece pieces hidle ih =>
    rw [walk_idle hidle] at h
    rw [Path.placeFrom?_idle hidle, Path.trailFrom_idle hidle]
    exact ih hhere h
  | outside pieces => cases h
  | back loc pieces hloc ih =>
    rw [walk_back hloc] at h
    rw [Path.placeFrom?_back hloc, Path.trailFrom_back hloc]
    exact ih (t.shows_under _) h
  | name loc piece pieces hname ih =>
    rw [walk_name hname hhere] at h
    rw [Path.placeFrom?_name hname, Path.trailFrom_name hname]
    split at h
    · cases h
    · split at h
      · cases h
      · rename_i hfolder
        obtain ⟨hplace, htrail⟩ := ih (hhere.inside _) h
        refine ⟨hplace, fun k hk => ?_⟩
        rcases List.mem_cons.1 hk with rfl | hk
        · exact .inl hfolder
        · exact htrail k hk
      · rename_i hfile
        split at h
        · rename_i hend
          obtain rfl := List.isEmpty_iff.1 hend
          cases h
          refine ⟨rfl, fun k hk => .inr ?_⟩
          obtain rfl := List.mem_singleton.1 hk
          exact ⟨rfl, by simp [hfile]⟩
        · cases h

/-- Names lead to a folder of `u` that `t` does not have. -/
def EndsInNew (t u : FileTree) (loc : Location) (pieces : List (List Char)) (l : Location) : Prop :=
  Path.placeFrom? loc pieces = some l ∧ t.find? l = none ∧ u.find? l = some .folder

/-- Why names that lead nowhere in `t` may have another end in `u`: a name that is too long is noticed in a folder only
if that is there, and the folder they lead to may be new. -/
def Strays (t u : FileTree) (loc : Location) (pieces : List (List Char)) (result : Except FileFault Location) : Prop :=
  result = .error .nameTooLong ∧ ¬ Path.Fits pieces ∨ ∃ l, result = .ok l ∧ t.EndsInNew u loc pieces l

theorem Strays.cons {result : Except FileFault Location} {next : Location} (h : t.Strays u next pieces result)
    (hplace : Path.placeFrom? loc (piece :: pieces) = Path.placeFrom? next pieces) :
    t.Strays u loc (piece :: pieces) result := by
  refine h.imp (fun hlong => ⟨hlong.1, fun hfits => hlong.2 hfits.tail⟩) fun hnew => ?_
  obtain ⟨l, hresult, hend, hfind⟩ := hnew
  exact ⟨l, hresult, hplace.trans hend, hfind⟩

/-- In a folder that is new, and that they do not leave, names lead nowhere but to folders that are new. -/
theorem walk_in_new (hclosed : t.IsClosed) (hu : u.Shows loc here') (hnone : t.find? loc = none)
    (hfolder : u.find? loc = some .folder) (hgrown : ∀ l ∈ Path.trailFrom loc pieces, t.Grown u l)
    (hturns : ∀ l ∈ Path.turnsFrom loc pieces, u.find? l = t.find? l) :
    u.walk loc here' pieces = .error .notFound ∨ t.Strays u loc pieces (u.walk loc here' pieces) := by
  induction loc, pieces using Path.followed_induction generalizing here' with
  | nil loc => exact .inr (.inr ⟨loc, rfl, rfl, hnone, hfolder⟩)
  | idle loc piece pieces hidle ih =>
    rw [Path.trailFrom_idle hidle] at hgrown
    rw [Path.turnsFrom_idle hidle] at hturns
    rw [walk_idle hidle]
    exact (ih hu hnone hfolder hgrown hturns).imp_right fun h => h.cons (Path.placeFrom?_idle hidle)
  | outside pieces => cases hnone
  | back loc pieces hloc ih =>
    rw [Path.turnsFrom_back hloc] at hturns
    rw [hturns loc List.mem_cons_self, hnone] at hfolder
    cases hfolder
  | name loc piece pieces hname ih =>
    rw [Path.trailFrom_name hname] at hgrown
    rw [Path.turnsFrom_name hname] at hturns
    rw [walk_name hname hu]
    have hmissing : t.find? (loc ++ [String.ofList piece]) = none :=
      hclosed.find?_eq_none hnone (List.prefix_append _ _)
    by_cases hlong : isTooLong piece = true
    · rw [if_pos hlong]
      refine .inr (.inl ⟨rfl, fun hfits => ?_⟩)
      rw [hfits piece List.mem_cons_self] at hlong
      cases hlong
    · rw [if_neg hlong]
      rcases hgrown _ List.mem_cons_self with hsame | ⟨-, hnew⟩
      · rw [hsame, hmissing]
        exact .inl rfl
      · rw [hnew]
        refine (ih (hu.inside _) hmissing hnew (fun l hl => hgrown l (List.mem_cons_of_mem _ hl)) hturns).imp_right ?_
        exact fun h => h.cons (Path.placeFrom?_name hname)

/-- **Names are followed alike in a tree that has grown**, unless they turn back where it has.  All that may differ is
how names end that lead nowhere in the old tree. -/
theorem walk_of_grown (hclosed : t.IsClosed) (ht : t.Shows loc here) (hu : u.Shows loc here')
    (hgrown : ∀ l ∈ Path.trailFrom loc pieces, t.Grown u l)
    (hturns : ∀ l ∈ Path.turnsFrom loc pieces, u.find? l = t.find? l) :
    u.walk loc here' pieces = t.walk loc here pieces ∨
      t.walk loc here pieces = .error .notFound ∧ t.Strays u loc pieces (u.walk loc here' pieces) := by
  induction loc, pieces using Path.followed_induction generalizing here here' with
  | nil loc => exact .inl rfl
  | idle loc piece pieces hidle ih =>
    rw [Path.trailFrom_idle hidle] at hgrown
    rw [Path.turnsFrom_idle hidle] at hturns
    rw [walk_idle hidle, walk_idle hidle]
    exact (ih ht hu hgrown hturns).imp_right (.imp_right fun h => h.cons (Path.placeFrom?_idle hidle))
  | outside pieces => exact .inl rfl
  | back loc pieces hloc ih =>
    rw [Path.trailFrom_back hloc] at hgrown
    rw [Path.turnsFrom_back hloc] at hturns
    rw [walk_back hloc, walk_back hloc]
    refine (ih (t.shows_under _) (u.shows_under _) hgrown fun l hl => hturns l (List.mem_cons_of_mem _ hl)).imp_right ?_
    exact .imp_right fun h => h.cons (Path.placeFrom?_back hloc)
  | name loc piece pieces hname ih =>
    rw [Path.trailFrom_name hname] at hgrown
    rw [Path.turnsFrom_name hname] at hturns
    have hafter := fun l hl => hgrown l (List.mem_cons_of_mem _ hl)
    have hcons := fun result (h : t.Strays u (loc ++ [String.ofList piece]) pieces result) =>
      h.cons (Path.placeFrom?_name hname)
    rw [walk_name hname ht, walk_name hname hu]
    by_cases hlong : isTooLong piece = true
    · rw [if_pos hlong, if_pos hlong]
      exact .inl rfl
    · rw [if_neg hlong, if_neg hlong]
      rcases hgrown _ List.mem_cons_self with hsame | ⟨hnone, hfolder⟩
      · rw [hsame]
        split
        · exact .inl rfl
        · exact (ih (ht.inside _) (hu.inside _) hafter hturns).imp_right (.imp_right (hcons _))
        · exact .inl rfl
      · rw [hnone, hfolder]
        refine (walk_in_new hclosed (hu.inside _) hnone hfolder hafter hturns).imp_right fun h => ?_
        exact ⟨rfl, hcons _ h⟩

/-! ## Paths in a tree and in one that has grown -/

variable {p : Path}

/-- On the way of a path, `u` differs from `t` at most by folders, and not at all where the path turns back. -/
structure WayKept (t u : FileTree) (p : Path) : Prop where
  grown : ∀ l ∈ p.trail, t.Grown u l
  turns : ∀ l ∈ p.turns, u.find? l = t.find? l

theorem locate_of_refusal? {fault : FileFault} (h : refusal? p = some fault) : t.locate p = .error fault := by
  rw [locate, h]

theorem locate_of_accepted (h : refusal? p = none) : t.locate p = t.walk [] t p.pieces := by
  rw [locate, h, follow]

theorem trail_of_accepted (h : refusal? p = none) :
    p.trail = Path.trailFrom [] p.pieces ∧ p.place? = Path.placeFrom? [] p.pieces := by
  simp [Path.trail, Path.place?, Path.isAbsolute_eq_false_of_refusal? h]

theorem turns_of_accepted (h : refusal? p = none) : p.turns = Path.turnsFrom [] p.pieces := by
  simp [Path.turns, Path.isAbsolute_eq_false_of_refusal? h]

theorem place?_of_locate {l : Location} (h : t.locate p = .ok l) : p.place? = some l := by
  cases hrefusal : refusal? p with
  | some fault =>
    rw [locate_of_refusal? hrefusal] at h
    cases h
  | none =>
    rw [locate_of_accepted hrefusal] at h
    rw [(trail_of_accepted hrefusal).2]
    exact (trail_of_walk t.shows_self h).1

theorem mem_trail_of_place? {l : Location} (h : p.place? = some l) : l = [] ∨ l ∈ p.trail := by
  unfold Path.place? at h
  unfold Path.trail
  split at h
  · cases h
  · rename_i habs
    rw [if_neg habs]
    exact (Path.mem_trailFrom_of_placeFrom? h).imp_left List.prefix_nil.1

theorem found_of_locate {l : Location} (h : t.locate p = .ok l) : t.find? l ≠ none := by
  rcases mem_trail_of_place? (place?_of_locate h) with rfl | hl
  · simp
  · cases hrefusal : refusal? p with
    | some fault =>
      rw [locate_of_refusal? hrefusal] at h
      cases h
    | none =>
      rw [locate_of_accepted hrefusal] at h
      rw [(trail_of_accepted hrefusal).1] at hl
      rcases (trail_of_walk t.shows_self h).2 l hl with hfolder | hfound
      · simp [hfolder]
      · exact hfound.2

theorem locate_congr (h : ∀ l ∈ p.trail, u.find? l = t.find? l) : u.locate p = t.locate p := by
  cases hrefusal : refusal? p with
  | some fault => rw [locate_of_refusal? hrefusal, locate_of_refusal? hrefusal]
  | none =>
    rw [locate_of_accepted hrefusal, locate_of_accepted hrefusal]
    rw [(trail_of_accepted hrefusal).1] at h
    exact walk_congr t.shows_self u.shows_self h

/-- A path leads to the same place in both trees, unless it leads nowhere in the old one. -/
theorem WayKept.locate_cases (h : t.WayKept u p) (hclosed : t.IsClosed) :
    u.locate p = t.locate p ∨
      t.locate p = .error .notFound ∧ (u.locate p = .error .nameTooLong ∧ ¬ Path.Fits p.pieces ∨
        ∃ l, u.locate p = .ok l ∧ p.place? = some l ∧ t.find? l = none ∧ u.find? l = some .folder) := by
  cases hrefusal : refusal? p with
  | some fault =>
    rw [locate_of_refusal? hrefusal, locate_of_refusal? hrefusal]
    exact .inl rfl
  | none =>
    have hgrown := h.grown
    have hturns := h.turns
    rw [(trail_of_accepted hrefusal).1] at hgrown
    rw [turns_of_accepted hrefusal] at hturns
    rw [locate_of_accepted hrefusal, locate_of_accepted hrefusal, (trail_of_accepted hrefusal).2]
    exact walk_of_grown hclosed t.shows_self u.shows_self hgrown hturns

/-- The text at a location that has been found. -/
theorem readText_of_locate {l : Location} (h : t.locate p = .ok l) (h' : u.locate p = .ok l)
    (hl : u.find? l = t.find? l) : u.readText p = t.readText p := by
  simp only [readText, h, h', hl]

theorem readText_congr (h : ∀ l ∈ p.trail, u.find? l = t.find? l) : u.readText p = t.readText p := by
  have hlocate := locate_congr h
  cases ht : t.locate p with
  | ok l =>
    refine readText_of_locate ht (hlocate.trans ht) ?_
    rcases mem_trail_of_place? (place?_of_locate ht) with rfl | hl
    · rfl
    · exact h l hl
  | error fault => simp only [readText, hlocate, ht]

theorem WayKept.find?_place (h : t.WayKept u p) {l : Location} (hl : p.place? = some l) : t.Grown u l := by
  rcases mem_trail_of_place? hl with rfl | htrail
  · exact .inl rfl
  · exact h.grown l htrail

/-- A script is read alike in both trees, or is missing in the old one and is no file in the new one. -/
theorem WayKept.readText_cases (h : t.WayKept u p) (hclosed : t.IsClosed) :
    u.readText p = t.readText p ∨
      t.readText p = .error .notFound ∧ (u.readText p = .error .nameTooLong ∧ ¬ Path.Fits p.pieces ∨
        u.readText p = .error .isDirectory ∧
          ∃ l, p.place? = some l ∧ t.find? l = none ∧ u.find? l = some .folder) := by
  rcases h.locate_cases hclosed with hsame | ⟨ht, ⟨hu, hlong⟩ | ⟨l, hu, hplace, hnone, hfolder⟩⟩
  · left
    cases ht : t.locate p with
    | ok l =>
      -- The path leads to something, so that nothing new is there.
      refine readText_of_locate ht (hsame.trans ht) ?_
      exact (h.find?_place (place?_of_locate ht)).resolve_right fun hnew => found_of_locate ht hnew.1
    | error fault => simp only [readText, ht, hsame.trans ht]
  · right
    simp only [readText, ht, hu]
    exact ⟨trivial, .inl ⟨trivial, hlong⟩⟩
  · right
    simp only [readText, ht, hu, hfolder]
    exact ⟨trivial, .inr ⟨trivial, l, hplace, hnone, hfolder⟩⟩

theorem WayKept.readText_eq_ok_iff (h : t.WayKept u p) (hclosed : t.IsClosed) (text : String) :
    u.readText p = .ok text ↔ t.readText p = .ok text := by
  rcases h.readText_cases hclosed with hsame | ⟨ht, ⟨hu, -⟩ | ⟨hu, -⟩⟩
  · rw [hsame]
  · rw [ht, hu]
    simp
  · rw [ht, hu]
    simp

end FileTree

end SceneScript
