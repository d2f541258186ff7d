import SceneScript.Proofs.Storage.FileTree

/-!
# What a path changes

Folders are made, and a file is written, at places of the trail of a path and nowhere else.  What is made in one tree is
made in another that has grown on the way: where a folder is there already, there is nothing left to do.

    what changes is a folder on the trail, where there was nothing                   (find?_makeFrom)
    what makeFrom does to t, it does to u                                            (moves_makeFrom)
    a file is written at the place of the path, and is found there                   (lookup?_of_spot)
-/

namespace SceneScript

namespace FileTree

variable {t u here here' : FileTree} {loc : Location} {piece : List Char} {pieces : List (List Char)} {p : Path}

/-! ## Making folders -/

theorem makeFrom_idle (h : Path.isIdle piece = true) (made : Bool) :
    t.makeFrom made loc here (piece :: pieces) = t.makeFrom made loc here pieces := by
  rw [makeFrom, if_pos h]

theorem makeFrom_back (h : loc ≠ []) (made : Bool) :
    t.makeFrom made loc here (['.', '.'] :: pieces) =
      t.makeFrom made loc.dropLast (t.under loc.dropLast) pieces := by
  rw [makeFrom, if_neg (by decide), if_pos rfl, if_neg (by simpa using h)]

theorem makeFrom_tooLong (h : isDots piece = false) (hlong : isTooLong piece = true) (made : Bool) :
    t.makeFrom made loc here (piece :: pieces) = (t, some .nameTooLong) := by
  obtain ⟨hidle, hdots⟩ := Path.isDots_eq_false_iff.1 h
  rw [makeFrom, hidle, if_neg (by decide), if_neg hdots, if_pos hlong]

theorem makeFrom_name (h : isDots piece = false) (hlong : isTooLong piece = false) (hhere : t.Shows loc here)
    (made : Bool) :
    t.makeFrom made loc here (piece :: pieces) =
      match t.find? (loc ++ [String.ofList piece]) with
      | some .folder =>
        t.makeFrom made (loc ++ [String.ofList piece]) (here.inside (String.ofList piece)) pieces
      | some (.file _) => (t, some (if made || pieces.isEmpty then .alreadyExists else .notDirectory))
      | none =>
        (t.add (loc ++ [String.ofList piece]) .folder).makeFrom true (loc ++ [String.ofList piece])
          (here.inside (String.ofList piece)) pieces := by
  obtain ⟨hidle, hdots⟩ := Path.isDots_eq_false_iff.1 h
  rewrite [makeFrom, hidle, if_neg (by decide), if_neg hdots, hlong, if_neg (by decide), ← hhere]
  rfl

/-- `v` is `t` with a folder at a location. -/
def WithFolder (t : FileTree) (loc : Location) (v : FileTree) : Prop :=
  ∀ l, v.find? l = if l = loc then some .folder else t.find? l

/-- A name that no file has leads on into a folder: one that is made, or one that is there. -/
theorem makeFrom_of_no_file (hname : isDots piece = false) (hlong : isTooLong piece = false)
    (hhere : t.Shows loc here) (hfile : ¬ t.HasFile (loc ++ [String.ofList piece])) (made : Bool) :
    ∃ (v : FileTree) (flag : Bool),
      t.makeFrom made loc here (piece :: pieces) =
        v.makeFrom flag (loc ++ [String.ofList piece]) (here.inside (String.ofList piece)) pieces ∧
      v.Shows (loc ++ [String.ofList piece]) (here.inside (String.ofList piece)) ∧
      t.WithFolder (loc ++ [String.ofList piece]) v ∧
      (t.find? (loc ++ [String.ofList piece]) = none ∧ flag = true ∨
        t.find? (loc ++ [String.ofList piece]) = some .folder ∧ flag = made) := by
  rw [makeFrom_name hname hlong hhere]
  rcases hfind : t.find? (loc ++ [String.ofList piece]) with _ | ⟨content⟩ | _
  · exact ⟨_, true, rfl, hhere.add _ _, find?_add _ (by simp) _, .inl ⟨rfl, rfl⟩⟩
  · exact absurd ⟨content, hfind⟩ hfile
  · refine ⟨t, made, rfl, hhere.inside _, fun l => ?_, .inr ⟨rfl, rfl⟩⟩
    split
    · rename_i heq
      rw [heq, hfind]
    · rfl

/-- A file in the place of a folder stops the making of folders. -/
theorem makeFrom_of_file (hname : isDots piece = false) (hlong : isTooLong piece = false)
    (hhere : t.Shows loc here) (hfile : t.HasFile (loc ++ [String.ofList piece])) (made : Bool) :
    t.makeFrom made loc here (piece :: pieces) =
      (t, some (if made || pieces.isEmpty then .alreadyExists else .notDirectory)) := by
  obtain ⟨content, hfind⟩ := hfile
  rw [makeFrom_name hname hlong hhere, hfind]

/-- Folders are made where there was nothing, on the trail of the names; nothing else changes. -/
theorem find?_makeFrom (hhere : t.Shows loc here) (made : Bool) (l : Location) :
    (t.makeFrom made loc here pieces).1.find? l = t.find? l ∨
      l ∈ Path.trailFrom loc pieces ∧ t.find? l = none ∧
        (t.makeFrom made loc here pieces).1.find? l = some .folder := by
  induction loc, pieces using Path.followed_induction generalizing t here made with
  | nil loc => exact .inl rfl
  | idle loc piece pieces hidle ih =>
    rw [makeFrom_idle hidle, Path.trailFrom_idle hidle]
    exact ih hhere made
  | outside pieces => exact .inl rfl
  | back loc pieces hloc ih =>
    rw [makeFrom_back hloc, Path.trailFrom_back hloc]
    exact ih (t.shows_under _) made
  | name loc piece pieces hname ih =>
    rw [Path.trailFrom_name hname]
    cases hlong : isTooLong piece with
    | true =>
      rw [makeFrom_tooLong hname hlong]
      exact .inl rfl
    | false =>
      by_cases hfile : t.HasFile (loc ++ [String.ofList piece])
      · rw [makeFrom_of_file hname hlong hhere hfile]
        exact .inl rfl
      · obtain ⟨v, flag, hmake, hshow, hlook, hfound⟩ := makeFrom_of_no_file hname hlong hhere hfile made
        rw [hmake]
        have hnext := ih hshow flag
        rw [hlook] at hnext
        split at hnext
        · rename_i heq
          subst heq
          have hfolder := hnext.resolve_right fun h => by simp at h
          rcases hfound with ⟨hnone, -⟩ | ⟨hsome, -⟩
          · exact .inr ⟨List.mem_cons_self, hnone, hfolder⟩
          · exact .inl (hfolder.trans hsome.symm)
        · exact hnext.imp_right fun h => ⟨List.mem_cons_of_mem _ h.1, h.2⟩

theorem find?_makeFrom_of_folder (hhere : t.Shows loc here) (made : Bool) {l : Location}
    (h : t.find? l = some .folder) : (t.makeFrom made loc here pieces).1.find? l = some .folder := by
  rcases find?_makeFrom hhere made l with hl | ⟨-, -, hl⟩
  · rw [hl, h]
  · exact hl

/-- If nothing prevents it, all places of the trail are folders in the end. -/
theorem find?_trail_of_makeFrom (hhere : t.Shows loc here) {made : Bool}
    (h : (t.makeFrom made loc here pieces).2 = none) :
    ∀ l ∈ Path.trailFrom loc pieces, (t.makeFrom made loc here pieces).1.find? l = some .folder := by
  induction loc, pieces using Path.followed_induction generalizing t here made with
  | nil loc => simp
  | idle loc piece pieces hidle ih =>
    rw [makeFrom_idle hidle] at h ⊢
    rw [Path.trailFrom_idle hidle]
    exact ih hhere h
  | outside pieces => cases h
  | back loc pieces hloc ih =>
    rw [makeFrom_back hloc] at h ⊢
    rw [Path.trailFrom_back hloc]
    exact ih (t.shows_under _) h
  | name loc piece pieces hname ih =>
    rw [Path.trailFrom_name hname]
    cases hlong : isTooLong piece with
    | true =>
      rw [makeFrom_tooLong hname hlong] at h
      cases h
    | false =>
      by_cases hfile : t.HasFile (loc ++ [String.ofList piece])
      · rw [makeFrom_of_file hname hlong hhere hfile] at h
        cases h
      · obtain ⟨v, flag, hmake, hshow, hlook, -⟩ := makeFrom_of_no_file hname hlong hhere hfile made
        rw [hmake] at h ⊢
        intro l hl
        rcases List.mem_cons.1 hl with rfl | hl
        · exact find?_makeFrom_of_folder hshow flag (by rw [hlook, if_pos rfl])
        · exact ih hshow h l hl

/-- What changes from `t` to `t'` changes from `u` to `u'` in the same way, unless it has changed in `u`
already. -/
structure Moves (t t' u u' : FileTree) : Prop where
  same : ∀ l, t'.find? l = t.find? l → u'.find? l = u.find? l
  new : ∀ l, t'.find? l ≠ t.find? l → u'.find? l = t'.find? l ∧ (u.find? l = t.find? l ∨ u.find? l = t'.find? l)

theorem Moves.refl (t u : FileTree) : Moves t t u u := ⟨fun _ _ => rfl, fun _ h => absurd rfl h⟩

/-- A folder may be made in both trees before, where it is missing. -/
theorem Moves.withFolder {t' u' v w : FileTree} (hv : t.WithFolder loc v) (hw : u.WithFolder loc w)
    (hgrown : t.Grown u loc) (ht' : t'.find? loc = some .folder) (hu' : u'.find? loc = some .folder)
    (h : Moves v t' w u') : Moves t t' u u' := by
  constructor
  · intro l hl
    by_cases hne : l = loc
    · subst hne
      rcases hgrown with hsame | ⟨-, hfolder⟩
      · rw [hsame, hu', ← ht', hl]
      · rw [hu', hfolder]
    · rw [h.same l (by rwa [hv, if_neg hne]), hw, if_neg hne]
  · intro l hl
    by_cases hne : l = loc
    · subst hne
      rw [hu', ht']
      exact ⟨rfl, hgrown.imp_right fun h => h.2⟩
    · have hnew := h.new l (by rwa [hv, if_neg hne])
      rwa [hv, if_neg hne, hw, if_neg hne] at hnew

theorem WithFolder.grown {v w : FileTree} (hv : t.WithFolder loc v) (hw : u.WithFolder loc w) {l : Location}
    (h : t.Grown u l) : v.Grown w l := by
  rw [Grown, hv, hw]
  split
  · exact .inl rfl
  · exact h

theorem WithFolder.not_hasFile {v : FileTree} (hv : t.WithFolder loc v) {l : Location} (h : ¬ t.HasFile l) :
    ¬ v.HasFile l := by
  rintro ⟨content, hcontent⟩
  rw [hv] at hcontent
  split at hcontent
  · cases hcontent
  · exact h ⟨content, hcontent⟩

theorem WithFolder.find?_eq {v w : FileTree} (hv : t.WithFolder loc v) (hw : u.WithFolder loc w) {l : Location}
    (h : u.find? l = t.find? l) : w.find? l = v.find? l := by
  rw [hv, hw, h]

/-- Whether something has been made is the same for both trees, unless a folder is new in one only. -/
theorem Grown.flag_eq (h : t.Grown u loc) {made made' flag flag' : Bool} {other : Prop}
    (ht : t.find? loc = none ∧ flag = true ∨ t.find? loc = some .folder ∧ flag = made)
    (hu : u.find? loc = none ∧ flag' = true ∨ u.find? loc = some .folder ∧ flag' = made')
    (hmade : made = made' ∨ other) (hnew : u.find? loc = t.find? loc ∨ other) :
    flag = flag' ∨ other := by
  rcases ht with ⟨hnone, rfl⟩ | ⟨hfolder, rfl⟩
  · rcases hu with ⟨-, rfl⟩ | ⟨hfolder', -⟩
    · exact .inl rfl
    · refine hnew.imp_left fun hsame => ?_
      rw [hsame, hnone] at hfolder'
      cases hfolder'
  · rcases hu with ⟨hnone', -⟩ | ⟨-, rfl⟩
    · rcases h with hsame | ⟨hnone, -⟩
      · rw [hsame, hfolder] at hnone'
        cases hnone'
      · rw [hfolder] at hnone
        cases hnone
    · exact hmade

/-- **Folders are made alike** in a tree and in one that has grown on the trail of the names, in both or in none of them
up to the end.  What prevents it is the same, too, if no file stands behind a folder that is new. -/
theorem moves_makeFrom (ht : t.Shows loc here) (hu : u.Shows loc here') (made made' : Bool)
    (hgrown : ∀ l ∈ Path.trailFrom loc pieces, t.Grown u l) :
    Moves t (t.makeFrom made loc here pieces).1 u (u.makeFrom made' loc here' pieces).1 ∧
      (u.makeFrom made' loc here' pieces).2.isSome = (t.makeFrom made loc here pieces).2.isSome ∧
      ((made = made' ∨ ∀ l ∈ Path.trailFrom loc pieces, ¬ t.HasFile l) →
        ((Path.trailFrom loc pieces).Pairwise fun k l => u.find? k ≠ t.find? k → ¬ t.HasFile l) →
        (u.makeFrom made' loc here' pieces).2 = (t.makeFrom made loc here pieces).2) := by
  induction loc, pieces using Path.followed_induction generalizing t u here here' made made' with
  | nil loc => exact ⟨.refl t u, rfl, fun _ _ => rfl⟩
  | idle loc piece pieces hidle ih =>
    rw [Path.trailFrom_idle hidle] at hgrown ⊢
    rw [makeFrom_idle hidle, makeFrom_idle hidle]
    exact ih ht hu made made' hgrown
  | outside pieces => exact ⟨.refl t u, rfl, fun _ _ => rfl⟩
  | back loc pieces hloc ih =>
    rw [Path.trailFrom_back hloc] at hgrown ⊢
    rw [makeFrom_back hloc, makeFrom_back hloc]
    exact ih (t.shows_under _) (u.shows_under _) made made' hgrown
  | name loc piece pieces hname ih =>
    rw [Path.trailFrom_name hname] at hgrown ⊢
    have hnext := hgrown _ List.mem_cons_self
    cases hlong : isTooLong piece with
    | true =>
      rw [makeFrom_tooLong hname hlong, makeFrom_tooLong hname hlong]
      exact ⟨.refl t u, rfl, fun _ _ => rfl⟩
    | false =>
      by_cases hfile : t.HasFile (loc ++ [String.ofList piece])
      · have hfile' : u.HasFile (loc ++ [String.ofList piece]) := hnext.hasFile_iff.2 hfile
        rw [makeFrom_of_file hname hlong ht hfile, makeFrom_of_file hname hlong hu hfile']
        refine ⟨.refl t u, rfl, fun hmade _ => ?_⟩
        obtain rfl : made = made' := hmade.resolve_right fun h => h _ List.mem_cons_self hfile
        rfl
      · have hfile' : ¬ u.HasFile (loc ++ [String.ofList piece]) := fun h => hfile (hnext.hasFile_iff.1 h)
        obtain ⟨v, flag, hmake, hshow, hv, hfound⟩ := makeFrom_of_no_file hname hlong ht hfile made
        obtain ⟨w, flag', hmake', hshow', hw, hfound'⟩ := makeFrom_of_no_file hname hlong hu hfile' made'
        rw [hmake, hmake']
        obtain ⟨hmoves, hstop, hfault⟩ := ih hshow hshow' flag flag'
          fun l hl => hv.grown hw (hgrown l (List.mem_cons_of_mem _ hl))
        refine ⟨hmoves.withFolder hv hw hnext ?_ ?_, hstop, fun hmade hpair => hfault ?_ ?_⟩
        · exact find?_makeFrom_of_folder hshow flag (by rw [hv, if_pos rfl])
        · exact find?_makeFrom_of_folder hshow' flag' (by rw [hw, if_pos rfl])
        · refine hnext.flag_eq hfound hfound' ?_ ?_
          · exact hmade.imp_right fun h l hl => hv.not_hasFile (h l (List.mem_cons_of_mem _ hl))
          · -- If the folder is new in `u`, it is made in `t` only, and no file may follow.
            by_cases hsame : u.find? (loc ++ [String.ofList piece]) = t.find? (loc ++ [String.ofList piece])
            · exact .inl hsame
            · exact .inr fun l hl => hv.not_hasFile ((List.pairwise_cons.1 hpair).1 l hl hsame)
        · exact (List.pairwise_cons.1 hpair).2.imp fun {k l} h hne =>
            hv.not_hasFile (h fun hsame => hne (hv.find?_eq hw hsame))

/-! ## Writing -/

/-- The location at which a file is written. -/
def spot (t : FileTree) (p : Path) : Except FileFault Location :=
  match t.locateNew p with
  | .error fault => .error fault
  | .ok (folder, last, slashes) =>
    if isDots last || slashes then .error .isDirectory
    else if isTooLong last then .error .nameTooLong
    else
      match t.find? (folder ++ [String.ofList last]) with
      | some .folder => .error .isDirectory
      | _ => .ok (folder ++ [String.ofList last])

theorem write_eq (t : FileTree) (p : Path) (content : ByteArray) :
    t.write p content = (t.spot p).map fun loc => t.put loc (.file content) := by
  unfold write spot
  rcases t.locateNew p with fault | ⟨folder, last, slashes⟩
  · rfl
  · dsimp only
    split
    · rfl
    · split
      · rfl
      · rcases t.find? (folder ++ [String.ofList last]) with _ | ⟨old⟩ | _ <;> rfl

/-- If no slash follows the last piece, the pieces before it lead to the folder. -/
theorem pieces_of_locateNew {folder : Location} {last : List Char}
    (h : t.locateNew p = .ok (folder, last, false)) :
    ∃ init, refusal? p = none ∧ p.pieces = init ++ [last] ∧ t.walk [] t init = .ok folder ∧
      t.find? folder = some .folder := by
  unfold locateNew at h
  split at h
  · cases h
  · rename_i hrefusal
    dsimp only at h
    generalize hcut : (p.pieces.reverse.dropWhile List.isEmpty).reverse = cut at h
    split at h
    · cases h
    · rename_i loc hwalk
      split at h
      · rename_i hfolder
        obtain ⟨rfl, hget, hlen⟩ : loc = folder ∧ cut.getLast?.getD [] = last ∧ ¬ cut.length < p.pieces.length := by
          simpa using h
        have hprefix : cut <+: p.pieces := by
          rw [← hcut, ← List.reverse_suffix, List.reverse_reverse]
          exact List.dropWhile_suffix _
        have hall : cut = p.pieces := hprefix.eq_of_length_le (by omega)
        have hne : cut ≠ [] := hall ▸ p.pieces_ne_nil
        rw [List.getLast?_eq_some_getLast hne, Option.getD_some] at hget
        refine ⟨cut.dropLast, hrefusal, ?_, hwalk, hfolder⟩
        rw [← hall, ← hget, List.dropLast_append_getLast hne]
      · cases h

/-- A path that a file is written at ends with a name, in a folder that is found. -/
theorem spot_eq_ok {loc : Location} (h : t.spot p = .ok loc) :
    ∃ init last folder, refusal? p = none ∧ p.pieces = init ++ [last] ∧ isDots last = false ∧
      isTooLong last = false ∧ t.walk [] t init = .ok folder ∧ t.find? folder = some .folder ∧
      loc = folder ++ [String.ofList last] ∧ t.find? loc ≠ some .folder := by
  unfold spot at h
  split at h
  · cases h
  · rename_i folder last slashes hnew
    split at h
    · cases h
    · rename_i hplain
      obtain ⟨hlast, rfl⟩ : isDots last = false ∧ slashes = false := by simpa using hplain
      obtain ⟨init, hrefusal, hpieces, hwalk, hfolder⟩ := pieces_of_locateNew hnew
      split at h
      · cases h
      · rename_i hlong
        split at h
        · cases h
        · rename_i hfree
          cases h
          exact ⟨init, last, folder, hrefusal, hpieces, hlast, by simpa using hlong, hwalk, hfolder, rfl, hfree⟩

theorem ne_nil_of_spot {loc : Location} (h : t.spot p = .ok loc) : loc ≠ [] := by
  obtain ⟨_, _, _, -, -, -, -, -, -, rfl, -⟩ := spot_eq_ok h
  simp

theorem not_folder_of_spot {loc : Location} (h : t.spot p = .ok loc) : t.find? loc ≠ some .folder := by
  obtain ⟨_, _, _, -, -, -, -, -, -, -, hfree⟩ := spot_eq_ok h
  exact hfree

/-- The place of a path that ends with a name lies in the folder of the pieces before. -/
theorem place?_concat {init : List (List Char)} {last : List Char} {folder : Location} (hrefusal : refusal? p = none)
    (hpieces : p.pieces = init ++ [last]) (hlast : isDots last = false) (hwalk : t.walk [] t init = .ok folder) :
    p.place? = some (folder ++ [String.ofList last]) ∧ folder ++ [String.ofList last] ∈ p.trail := by
  have hplace := (trail_of_walk t.shows_self hwalk).1
  rw [(trail_of_accepted hrefusal).1, (trail_of_accepted hrefusal).2, hpieces, Path.placeFrom?_append,
    Path.trailFrom_append, hplace, Option.bind_some, Option.elim_some, Path.placeFrom?_name hlast,
    Path.trailFrom_name hlast]
  exact ⟨rfl, List.mem_append_right _ List.mem_cons_self⟩

theorem filePlace?_of_spot {loc : Location} (h : t.spot p = .ok loc) : p.filePlace? = some loc ∧ loc ∈ p.trail := by
  obtain ⟨init, last, folder, hrefusal, hpieces, hlast, -, hwalk, -, rfl, -⟩ := spot_eq_ok h
  have hplace := place?_concat hrefusal hpieces hlast hwalk
  refine ⟨?_, hplace.2⟩
  rw [Path.filePlace?, hpieces, List.getLast?_concat, Option.getD_some, hlast, if_neg (by decide), hplace.1]

theorem locateNew_congr (h : ∀ l ∈ p.trail, u.find? l = t.find? l) : u.locateNew p = t.locateNew p := by
  unfold locateNew
  split
  · rfl
  · rename_i hrefusal
    rw [(trail_of_accepted hrefusal).1] at h
    dsimp only
    generalize hcut : (p.pieces.reverse.dropWhile List.isEmpty).reverse = cut
    have hprefix : cut.dropLast <+: p.pieces := by
      refine (List.dropLast_prefix cut).trans ?_
      rw [← hcut, ← List.reverse_suffix, List.reverse_reverse]
      exact List.dropWhile_suffix _
    have htrail : ∀ l ∈ Path.trailFrom [] cut.dropLast, u.find? l = t.find? l :=
      fun l hl => h l ((Path.trailFrom_prefix hprefix []).subset hl)
    have hwalk : u.follow cut.dropLast = t.follow cut.dropLast := walk_congr t.shows_self u.shows_self htrail
    rw [hwalk]
    split
    · rfl
    · rename_i loc hloc
      have hfind : u.find? loc = t.find? loc := by
        rcases Path.mem_trailFrom_of_placeFrom? (trail_of_walk t.shows_self hloc).1 with hl | hl
        · rw [List.prefix_nil.1 hl, find?_nil, find?_nil]
        · exact htrail loc hl
      rw [hfind]

theorem spot_congr (h : ∀ l ∈ p.trail, u.find? l = t.find? l) : u.spot p = t.spot p := by
  unfold spot
  rw [locateNew_congr h]
  split
  · rfl
  · rename_i folder last slashes hnew
    split
    · rfl
    · rename_i hplain
      obtain ⟨hlast, rfl⟩ : isDots last = false ∧ slashes = false := by simpa using hplain
      obtain ⟨init, hrefusal, hpieces, hwalk, -⟩ := pieces_of_locateNew hnew
      rw [h _ (place?_concat hrefusal hpieces hlast hwalk).2]

theorem walk_append {xs : List (List Char)} {l : Location} (hhere : t.Shows loc here)
    (h : t.walk loc here xs = .ok l) (hl : t.find? l = some .folder) (ys : List (List Char)) :
    ∃ below, t.Shows l below ∧ t.walk loc here (xs ++ ys) = t.walk l below ys := by
  induction loc, xs using Path.followed_induction generalizing here with
  | nil loc =>
    cases h
    exact ⟨here, hhere, rfl⟩
  | idle loc piece xs hidle ih =>
    rw [walk_idle hidle] at h
    rw [List.cons_append, walk_idle hidle]
    exact ih hhere h
  | outside xs => cases h
  | back loc xs hloc ih =>
    rw [walk_back hloc] at h
    rw [List.cons_append, walk_back hloc]
    exact ih (t.shows_under _) h
  | name loc piece xs hname ih =>
    rw [walk_name hname hhere] at h
    rw [List.cons_append, walk_name hname hhere]
    split at h
    · cases h
    · rename_i hlong
      rw [if_neg hlong]
      split at h
      · cases h
      · exact ih (hhere.inside _) h
      · rename_i hfile
        split at h
        · cases h
          rw [hfile] at hl
          cases hl
        · cases h

/-- What is written is found again, in every tree that keeps the folders and has something at that location. -/
theorem lookup?_of_spot {loc : Location} (h : t.spot p = .ok loc)
    (hfolders : ∀ l, t.find? l = some .folder → u.find? l = some .folder) {e : Entry} (he : u.find? loc = some e) :
    u.lookup? p = some e := by
  obtain ⟨init, last, folder, hrefusal, hpieces, hdots, hlong, hwalk, hfolder, rfl, -⟩ := spot_eq_ok h
  have hinit : u.walk [] u init = .ok folder := by
    rw [← hwalk]
    refine walk_congr t.shows_self u.shows_self fun l hl => ?_
    have hl' : t.find? l = some .folder := by
      rcases (trail_of_walk t.shows_self hwalk).2 l hl with hl | ⟨rfl, -⟩
      · exact hl
      · exact hfolder
    rw [hfolders l hl', hl']
  obtain ⟨below, hbelow, happend⟩ := walk_append u.shows_self hinit (hfolders _ hfolder) [last]
  have hlocate : u.locate p = .ok (folder ++ [String.ofList last]) := by
    rw [locate_of_accepted hrefusal, hpieces, happend, walk_name hdots hbelow, hlong, he]
    cases e <;> rfl
  rw [lookup?, hlocate, ← he]

end FileTree

end SceneScript
