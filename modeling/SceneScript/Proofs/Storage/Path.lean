import Mathlib.Data.List.Basic
import SceneScript.Proofs.Text
import SceneScript.Storage.FileTree

/-!
# Where a path leads

The names of a path lead through some places, its trail, to a last one; at some of them it may turn back.  All this is
read off the path alone; what lies there is a matter of the file tree.  A place that a path does not turn back at lies
above all that follow.  The folder of a path has the trail of the path up to its last place.

    k ∉ turnsFrom loc pieces → all that follows lies below k         (stays_below)
    the pieces of a path, put together again, are the path           (ofPieces_pieces)
    a place of the trail lies on that of the folder or is the last   (parent?_cases)
-/

namespace SceneScript

namespace Path

/-- The places that names lead through, from a location.  Outside the working directory there are none. -/
def trailFrom (loc : Location) : List (List Char) → List Location
  | [] => []
  | piece :: pieces =>
    if isIdle piece then trailFrom loc pieces
    else if piece = ['.', '.'] then if loc.isEmpty then [] else trailFrom loc.dropLast pieces
    else (loc ++ [String.ofList piece]) :: trailFrom (loc ++ [String.ofList piece]) pieces

/-- The place that names lead to, from a location. -/
def placeFrom? (loc : Location) : List (List Char) → Option Location
  | [] => some loc
  | piece :: pieces =>
    if isIdle piece then placeFrom? loc pieces
    else if piece = ['.', '.'] then if loc.isEmpty then none else placeFrom? loc.dropLast pieces
    else placeFrom? (loc ++ [String.ofList piece]) pieces

/-- The places at which names turn back to the folder around. -/
def turnsFrom (loc : Location) : List (List Char) → List Location
  | [] => []
  | piece :: pieces =>
    if isIdle piece then turnsFrom loc pieces
    else if piece = ['.', '.'] then if loc.isEmpty then [] else loc :: turnsFrom loc.dropLast pieces
    else turnsFrom (loc ++ [String.ofList piece]) pieces

/-- No piece is too long for a name. -/
def Fits (pieces : List (List Char)) : Prop := ∀ piece ∈ pieces, FileTree.isTooLong piece = false

/-- Induction on names that are followed from a location: a piece may stand for nothing, lead out of the working
directory, lead back, or be a name. -/
theorem followed_induction {motive : Location → List (List Char) → Prop}
    (nil : ∀ loc, motive loc [])
    (idle : ∀ loc piece pieces, isIdle piece = true → motive loc pieces → motive loc (piece :: pieces))
    (outside : ∀ pieces, motive [] (['.', '.'] :: pieces))
    (back : ∀ loc pieces, loc ≠ [] → motive loc.dropLast pieces → motive loc (['.', '.'] :: pieces))
    (name : ∀ loc piece pieces, FileTree.isDots piece = false →
      motive (loc ++ [String.ofList piece]) pieces → motive loc (piece :: pieces))
    (loc : Location) (pieces : List (List Char)) : motive loc pieces := by
  induction pieces generalizing loc with
  | nil => exact nil loc
  | cons piece pieces ih =>
    by_cases hidle : isIdle piece = true
    · exact idle loc piece pieces hidle (ih loc)
    · by_cases hdots : piece = ['.', '.']
      · subst hdots
        by_cases hloc : loc = []
        · exact hloc ▸ outside pieces
        · exact back loc pieces hloc (ih _)
      · exact name loc piece pieces (by simp [FileTree.isDots, hidle, hdots]) (ih _)

theorem Fits.tail {piece : List Char} {pieces : List (List Char)} (h : Fits (piece :: pieces)) : Fits pieces :=
  fun other hother => h other (List.mem_cons_of_mem piece hother)

theorem isDots_eq_false_iff {piece : List Char} :
    FileTree.isDots piece = false ↔ isIdle piece = false ∧ piece ≠ ['.', '.'] := by
  simp [FileTree.isDots]

section Trail

variable {loc : Location} {piece : List Char} {pieces : List (List Char)}

@[simp] theorem trailFrom_nil (loc : Location) : trailFrom loc [] = [] := rfl

@[simp] theorem placeFrom?_nil (loc : Location) : placeFrom? loc [] = some loc := rfl

@[simp] theorem turnsFrom_nil (loc : Location) : turnsFrom loc [] = [] := rfl

theorem trailFrom_idle (h : isIdle piece = true) : trailFrom loc (piece :: pieces) = trailFrom loc pieces := by
  rw [trailFrom, if_pos h]

theorem placeFrom?_idle (h : isIdle piece = true) :
    placeFrom? loc (piece :: pieces) = placeFrom? loc pieces := by
  rw [placeFrom?, if_pos h]

theorem turnsFrom_idle (h : isIdle piece = true) : turnsFrom loc (piece :: pieces) = turnsFrom loc pieces := by
  rw [turnsFrom, if_pos h]

@[simp] theorem trailFrom_outside : trailFrom [] (['.', '.'] :: pieces) = [] := rfl

theorem trailFrom_back (h : loc ≠ []) :
    trailFrom loc (['.', '.'] :: pieces) = trailFrom loc.dropLast pieces := by
  rw [trailFrom, if_neg (by decide), if_pos rfl, if_neg (by simpa using h)]

theorem placeFrom?_back (h : loc ≠ []) :
    placeFrom? loc (['.', '.'] :: pieces) = placeFrom? loc.dropLast pieces := by
  rw [placeFrom?, if_neg (by decide), if_pos rfl, if_neg (by simpa using h)]

theorem turnsFrom_back (h : loc ≠ []) :
    turnsFrom loc (['.', '.'] :: pieces) = loc :: turnsFrom loc.dropLast pieces := by
  rw [turnsFrom, if_neg (by decide), if_pos rfl, if_neg (by simpa using h)]

theorem trailFrom_name (h : FileTree.isDots piece = false) :
    trailFrom loc (piece :: pieces) =
      (loc ++ [String.ofList piece]) :: trailFrom (loc ++ [String.ofList piece]) pieces := by
  obtain ⟨hidle, hdots⟩ := isDots_eq_false_iff.1 h
  rw [trailFrom, hidle, if_neg (by decide), if_neg hdots]

theorem placeFrom?_name (h : FileTree.isDots piece = false) :
    placeFrom? loc (piece :: pieces) = placeFrom? (loc ++ [String.ofList piece]) pieces := by
  obtain ⟨hidle, hdots⟩ := isDots_eq_false_iff.1 h
  rw [placeFrom?, hidle, if_neg (by decide), if_neg hdots]

theorem turnsFrom_name (h : FileTree.isDots piece = false) :
    turnsFrom loc (piece :: pieces) = turnsFrom (loc ++ [String.ofList piece]) pieces := by
  obtain ⟨hidle, hdots⟩ := isDots_eq_false_iff.1 h
  rw [turnsFrom, hidle, if_neg (by decide), if_neg hdots]

theorem placeFrom?_append (loc : Location) (xs ys : List (List Char)) :
    placeFrom? loc (xs ++ ys) = (placeFrom? loc xs).bind fun l => placeFrom? l ys := by
  induction loc, xs using followed_induction with
  | nil loc => rfl
  | idle loc piece xs h ih => rwa [List.cons_append, placeFrom?_idle h, placeFrom?_idle h]
  | outside xs => rfl
  | back loc xs h ih => rwa [List.cons_append, placeFrom?_back h, placeFrom?_back h]
  | name loc piece xs h ih => rwa [List.cons_append, placeFrom?_name h, placeFrom?_name h]

theorem trailFrom_append (loc : Location) (xs ys : List (List Char)) :
    trailFrom loc (xs ++ ys) =
      trailFrom loc xs ++ (placeFrom? loc xs).elim [] fun l => trailFrom l ys := by
  induction loc, xs using followed_induction with
  | nil loc => rfl
  | idle loc piece xs h ih =>
    rwa [List.cons_append, trailFrom_idle h, trailFrom_idle h, placeFrom?_idle h]
  | outside xs => rfl
  | back loc xs h ih => rwa [List.cons_append, trailFrom_back h, trailFrom_back h, placeFrom?_back h]
  | name loc piece xs h ih =>
    rw [List.cons_append, trailFrom_name h, trailFrom_name h, placeFrom?_name h, ih, List.cons_append]

theorem trailFrom_of_idle (h : ∀ p ∈ pieces, isIdle p = true) (loc : Location) :
    trailFrom loc pieces = [] ∧ placeFrom? loc pieces = some loc := by
  induction pieces with
  | nil => exact ⟨rfl, rfl⟩
  | cons p pieces ih =>
    have hp := h p List.mem_cons_self
    rw [trailFrom_idle hp, placeFrom?_idle hp]
    exact ih fun q hq => h q (List.mem_cons_of_mem _ hq)

theorem placeFrom?_names (h : ∀ p ∈ pieces, FileTree.isDots p = false) (loc : Location) :
    placeFrom? loc pieces = some (loc ++ pieces.map String.ofList) := by
  induction pieces generalizing loc with
  | nil => simp
  | cons p pieces ih =>
    rw [placeFrom?_name (h p List.mem_cons_self), ih fun q hq => h q (List.mem_cons_of_mem _ hq)]
    simp

/-- Names end where they began, above that, or at a place of their trail. -/
theorem mem_trailFrom_of_placeFrom? {l : Location} (h : placeFrom? loc pieces = some l) :
    l <+: loc ∨ l ∈ trailFrom loc pieces := by
  induction loc, pieces using followed_induction with
  | nil loc =>
    cases h
    exact .inl List.prefix_rfl
  | idle loc piece pieces hidle ih =>
    rw [placeFrom?_idle hidle] at h
    rw [trailFrom_idle hidle]
    exact ih h
  | outside pieces => cases h
  | back loc pieces hloc ih =>
    rw [placeFrom?_back hloc] at h
    rw [trailFrom_back hloc]
    exact (ih h).imp_left fun hl => hl.trans (List.dropLast_prefix loc)
  | name loc piece pieces hname ih =>
    rw [placeFrom?_name hname] at h
    rw [trailFrom_name hname]
    rcases ih h with hl | hl
    · rcases List.prefix_concat_iff.1 hl with rfl | hl
      · exact .inr List.mem_cons_self
      · exact .inl hl
    · exact .inr (List.mem_cons_of_mem _ hl)

/-- **Names lead nowhere but below a place until they turn back at it.** -/
theorem stays_below {k : Location} (hk : k <+: loc) (hne : k ≠ []) (h : k ∉ turnsFrom loc pieces) :
    (∃ l, placeFrom? loc pieces = some l ∧ k <+: l) ∧ ∀ l ∈ trailFrom loc pieces, k <+: l := by
  induction loc, pieces using followed_induction with
  | nil loc => exact ⟨⟨loc, rfl, hk⟩, by simp⟩
  | idle loc piece pieces hidle ih =>
    rw [turnsFrom_idle hidle] at h
    rw [placeFrom?_idle hidle, trailFrom_idle hidle]
    exact ih hk h
  | outside pieces => exact absurd (List.prefix_nil.1 hk) hne
  | back loc pieces hloc ih =>
    rw [turnsFrom_back hloc, List.mem_cons, not_or] at h
    rw [placeFrom?_back hloc, trailFrom_back hloc]
    refine ih ?_ h.2
    rw [← List.dropLast_append_getLast hloc] at hk
    refine (List.prefix_concat_iff.1 hk).resolve_left fun heq => h.1 ?_
    rw [heq, List.dropLast_append_getLast hloc]
  | name loc piece pieces hname ih =>
    rw [turnsFrom_name hname] at h
    rw [placeFrom?_name hname, trailFrom_name hname]
    have hnext : k <+: loc ++ [String.ofList piece] := hk.trans (List.prefix_append _ _)
    obtain ⟨hplace, htrail⟩ := ih hnext h
    exact ⟨hplace, List.forall_mem_cons.2 ⟨hnext, htrail⟩⟩

theorem pairwise_trailFrom (loc : Location) (pieces : List (List Char)) :
    (trailFrom loc pieces).Pairwise fun k l => k ∉ turnsFrom loc pieces → k <+: l := by
  induction loc, pieces using followed_induction with
  | nil loc => exact .nil
  | idle loc piece pieces hidle ih => rwa [turnsFrom_idle hidle, trailFrom_idle hidle]
  | outside pieces => exact .nil
  | back loc pieces hloc ih =>
    rw [turnsFrom_back hloc, trailFrom_back hloc]
    exact ih.imp fun {k l} hkl hk => hkl fun hmem => hk (List.mem_cons_of_mem _ hmem)
  | name loc piece pieces hname ih =>
    rw [turnsFrom_name hname, trailFrom_name hname]
    exact List.pairwise_cons.2 ⟨fun l hl hk => (stays_below List.prefix_rfl (by simp) hk).2 l hl, ih⟩

/-- Names lead through a place because they end there or below it, or because they turn back at it. -/
theorem mem_trailFrom_cases {l : Location} (h : l ∈ trailFrom loc pieces) :
    (∃ k, placeFrom? loc pieces = some k ∧ l <+: k) ∨ l ∈ turnsFrom loc pieces := by
  induction loc, pieces using followed_induction with
  | nil loc => cases h
  | idle loc piece pieces hidle ih =>
    rw [trailFrom_idle hidle] at h
    rw [placeFrom?_idle hidle, turnsFrom_idle hidle]
    exact ih h
  | outside pieces => cases h
  | back loc pieces hloc ih =>
    rw [trailFrom_back hloc] at h
    rw [placeFrom?_back hloc, turnsFrom_back hloc]
    exact (ih h).imp_right (List.mem_cons_of_mem loc)
  | name loc piece pieces hname ih =>
    rw [trailFrom_name hname, List.mem_cons] at h
    rw [placeFrom?_name hname, turnsFrom_name hname]
    rcases h with rfl | h
    · by_cases hturn : loc ++ [String.ofList piece] ∈ turnsFrom (loc ++ [String.ofList piece]) pieces
      · exact .inr hturn
      · exact .inl (stays_below List.prefix_rfl (by simp) hturn).1
    · exact ih h

theorem trailFrom_prefix {xs ys : List (List Char)} (h : xs <+: ys) (loc : Location) :
    trailFrom loc xs <+: trailFrom loc ys := by
  obtain ⟨zs, rfl⟩ := h
  rw [trailFrom_append]
  exact List.prefix_append _ _

theorem turnsFrom_prefix {xs ys : List (List Char)} (h : xs <+: ys) (loc : Location) :
    turnsFrom loc xs <+: turnsFrom loc ys := by
  obtain ⟨zs, rfl⟩ := h
  induction loc, xs using followed_induction with
  | nil loc => exact List.nil_prefix
  | idle loc piece xs hidle ih => rwa [List.cons_append, turnsFrom_idle hidle, turnsFrom_idle hidle]
  | outside xs => exact List.nil_prefix
  | back loc xs hloc ih =>
    rw [List.cons_append, turnsFrom_back hloc, turnsFrom_back hloc]
    exact List.cons_prefix_cons.2 ⟨rfl, ih⟩
  | name loc piece xs hname ih => rwa [List.cons_append, turnsFrom_name hname, turnsFrom_name hname]

theorem trailFrom_singleton_dots (h : FileTree.isDots piece = true) (loc : Location) :
    trailFrom loc [piece] = [] := by
  by_cases hidle : isIdle piece = true
  · rw [trailFrom_idle hidle, trailFrom_nil]
  · obtain rfl : piece = ['.', '.'] := by simpa [FileTree.isDots, hidle] using h
    by_cases hloc : loc = []
    · rw [hloc, trailFrom_outside]
    · rw [trailFrom_back hloc, trailFrom_nil]

/-- The last name adds at most one place, the one that the names lead to. -/
theorem mem_trailFrom_concat {l : Location} (h : l ∈ trailFrom loc (pieces ++ [piece])) :
    l ∈ trailFrom loc pieces ∨ placeFrom? loc (pieces ++ [piece]) = some l := by
  rw [trailFrom_append, List.mem_append] at h
  rcases h with h | h
  · exact .inl h
  · rw [placeFrom?_append]
    cases hplace : placeFrom? loc pieces with
    | none =>
      rw [hplace] at h
      cases h
    | some k =>
      rw [hplace] at h
      simp only [Option.elim_some] at h
      cases hdots : FileTree.isDots piece with
      | true =>
        rw [trailFrom_singleton_dots hdots] at h
        cases h
      | false =>
        rw [trailFrom_name hdots, trailFrom_nil, List.mem_singleton] at h
        rw [Option.bind_some, placeFrom?_name hdots, placeFrom?_nil, h]
        exact .inr rfl

end Trail

/-! ## Pieces -/

theorem not_mem_piece {p : Path} {piece : List Char} (h : piece ∈ p.pieces) : '/' ∉ piece := by
  intro hslash
  have := Text.not_of_mem_splitOn h _ hslash
  simp at this

theorem pieces_ne_nil (p : Path) : p.pieces ≠ [] := Text.splitOn_ne_nil _ _

theorem pieces_ofPieces {ps : List (List Char)} (hne : ps ≠ []) (h : ∀ piece ∈ ps, '/' ∉ piece) :
    (ofPieces ps).pieces = ps := by
  have hmap : (ps.map String.ofList).map String.toList = ps := by simp
  rw [pieces, ofPieces, String.toList_intercalate, hmap]
  refine Text.splitOn_intercalate (by decide) hne fun w hw c hc => ?_
  simp only [beq_eq_false_iff_ne]
  rintro rfl
  exact h w hw hc

theorem ofPieces_pieces (p : Path) : ofPieces p.pieces = p := by
  have htext : (ofPieces p.pieces).text.toList = p.text.toList := by
    rw [ofPieces, String.toList_intercalate, List.map_map]
    simpa [Function.comp_def, pieces] using Text.intercalate_splitOn '/' p.text.toList
  cases p
  exact congrArg Path.mk (String.toList_inj.1 htext)

theorem pieces_inj {p q : Path} : p.pieces = q.pieces ↔ p = q := by
  refine ⟨fun h => ?_, fun h => h ▸ rfl⟩
  rw [← ofPieces_pieces p, h, ofPieces_pieces]

/-- Some idle pieces stand behind those that are kept. -/
theorem dropIdle_append (ps : List (List Char)) :
    ∃ idle, (∀ piece ∈ idle, isIdle piece = true) ∧ ps = dropIdle ps ++ idle := by
  cases ps with
  | nil => exact ⟨[], by simp, rfl⟩
  | cons first rest =>
    refine ⟨(rest.reverse.takeWhile isIdle).reverse, ?_, ?_⟩
    · intro piece hpiece
      exact List.all_eq_true.1 List.all_takeWhile piece (List.mem_reverse.1 hpiece)
    · rw [dropIdle, List.cons_append, ← List.reverse_append, List.takeWhile_append_dropWhile,
        List.reverse_reverse]

theorem trailFrom_dropIdle (loc : Location) (ps : List (List Char)) :
    trailFrom loc (dropIdle ps) = trailFrom loc ps ∧ placeFrom? loc (dropIdle ps) = placeFrom? loc ps := by
  obtain ⟨idle, hidle, hps⟩ := dropIdle_append ps
  have hrest := trailFrom_of_idle hidle
  constructor
  · conv_rhs => rw [hps, trailFrom_append]
    cases placeFrom? loc (dropIdle ps) with
    | none => simp
    | some l => simp [(hrest l).1]
  · conv_rhs => rw [hps, placeFrom?_append]
    cases placeFrom? loc (dropIdle ps) with
    | none => rfl
    | some l => simp [(hrest l).2]

/-- Whether the path starts at a slash, outside the working directory. -/
def isAbsolute (p : Path) : Bool :=
  match p.pieces with
  | [] :: _ :: _ => true
  | _ => false

/-- The places that a path leads through. -/
def trail (p : Path) : List Location := if p.isAbsolute then [] else trailFrom [] p.pieces

/-- The place that a path leads to. -/
def place? (p : Path) : Option Location := if p.isAbsolute then none else placeFrom? [] p.pieces

/-- The places at which a path turns back. -/
def turns (p : Path) : List Location := if p.isAbsolute then [] else turnsFrom [] p.pieces

/-- The place of a path that ends with a name, so that a file may lie there. -/
def filePlace? (p : Path) : Option Location :=
  if FileTree.isDots (p.pieces.getLast?.getD []) then none else p.place?

theorem place?_of_filePlace? {p : Path} {l : Location} (h : p.filePlace? = some l) : p.place? = some l := by
  unfold filePlace? at h
  split at h
  · cases h
  · exact h

theorem isAbsolute_eq_false_of_refusal? {p : Path} (h : FileTree.refusal? p = none) : p.isAbsolute = false := by
  unfold FileTree.refusal? at h
  split_ifs at h
  split at h
  · cases h
  · rename_i c cs htext
    split_ifs at h with hc
    have hpieces : p.pieces = Text.consHead c (Text.splitOn (· == '/') cs) := by
      rw [pieces, htext, Text.splitOn, if_neg (by simpa using hc)]
    cases hsplit : Text.splitOn (· == '/') cs with
    | nil => exact absurd hsplit (Text.splitOn_ne_nil _ cs)
    | cons w ws => simp [isAbsolute, hpieces, hsplit, Text.consHead]

theorem trail_eq {p : Path} (h : p.isAbsolute = false) :
    p.trail = trailFrom [] (dropIdle p.pieces) ∧ p.place? = placeFrom? [] (dropIdle p.pieces) := by
  rw [trail, place?, h, if_neg (by decide), if_neg (by decide), (trailFrom_dropIdle _ _).1,
    (trailFrom_dropIdle _ _).2]
  exact ⟨rfl, rfl⟩

/-- A path leads through a place because it ends there or below it, or because it turns back at it. -/
theorem mem_trail_cases {p : Path} {l : Location} (h : l ∈ p.trail) :
    (∃ k, p.place? = some k ∧ l <+: k) ∨ l ∈ p.turns := by
  unfold trail at h
  unfold place? turns
  split at h
  · cases h
  · rename_i habs
    rw [if_neg habs, if_neg habs]
    exact mem_trailFrom_cases h

theorem dropIdle_prefix (ps : List (List Char)) : dropIdle ps <+: ps := by
  obtain ⟨idle, -, hps⟩ := dropIdle_append ps
  exact ⟨idle, hps.symm⟩

/-- A folder that is made for a path lies on the trail of the path, before its last place. -/
structure IsFolderOf (folder p : Path) : Prop where
  parent? : p.parent? = some folder
  not_empty : folder.text.isEmpty = false
  absolute : folder.isAbsolute = p.isAbsolute
  trail : ∀ l ∈ folder.trail, l ∈ p.trail
  place : ∀ l ∈ p.trail, l ∈ folder.trail ∨ p.place? = some l
  turns : ∀ l ∈ folder.turns, l ∈ p.turns

/-- A path of one piece lies in the working directory. -/
theorem place?_of_single {p : Path} {first : List Char} (h : dropIdle p.pieces = [first]) :
    ∀ l ∈ p.trail, p.place? = some l := by
  intro l hl
  cases habs : p.isAbsolute with
  | true => simp [trail, habs] at hl
  | false =>
    rw [(trail_eq habs).1, h, ← List.nil_append [first]] at hl
    rw [(trail_eq habs).2, h]
    exact (mem_trailFrom_concat hl).resolve_left (by simp)

theorem isAbsolute_of_pieces {p : Path} {first second : List Char} {rest : List (List Char)}
    (h : p.pieces = first :: second :: rest) : p.isAbsolute = first.isEmpty := by
  cases first <;> simp [isAbsolute, h]

theorem isAbsolute_of_head {p : Path} {first : List Char} {rest : List (List Char)} (h : p.pieces = first :: rest)
    (hroot : p.pieces ≠ [[]]) : p.isAbsolute = first.isEmpty := by
  cases rest with
  | nil => cases first <;> simp_all [isAbsolute]
  | cons second rest => exact isAbsolute_of_pieces h

/-- The first two pieces that are kept are the first and one of the others. -/
theorem pieces_of_dropIdle {p : Path} {first : List Char} {more : List (List Char)}
    (h : dropIdle p.pieces = first :: more) : ∃ idle, p.pieces = first :: (more ++ idle) := by
  obtain ⟨idle, -, hps⟩ := dropIdle_append p.pieces
  exact ⟨idle, by rw [hps, h, List.cons_append]⟩

theorem isFolderOf_of_pieces {p : Path} {first last : List Char} {rest ps : List (List Char)}
    (hps : dropIdle p.pieces = (first :: rest) ++ [last]) (hinit : dropIdle (first :: rest) = ps) (hroot : ps ≠ [[]])
    (hparent : p.parent? = some (ofPieces ps)) : IsFolderOf (ofPieces ps) p := by
  have hfront : ps <+: p.pieces := by
    have hbefore : ps <+: first :: rest := hinit ▸ dropIdle_prefix _
    have hkept : (first :: rest) ++ [last] <+: p.pieces := hps ▸ dropIdle_prefix _
    exact (hbefore.trans (List.prefix_append _ _)).trans hkept
  have hpieces : (ofPieces ps).pieces = ps := by
    refine pieces_ofPieces ?_ fun piece hpiece => not_mem_piece (hfront.subset hpiece)
    rw [← hinit]
    simp [dropIdle]
  have habs : (ofPieces ps).isAbsolute = p.isAbsolute := by
    obtain ⟨idle, hidle⟩ := pieces_of_dropIdle hps
    have hp : p.isAbsolute = first.isEmpty := isAbsolute_of_head hidle (by simp [hidle])
    have hhead : (ofPieces ps).pieces = first :: (rest.reverse.dropWhile isIdle).reverse := by
      rw [hpieces, ← hinit, dropIdle]
    rw [hp, isAbsolute_of_head hhead (by rwa [hpieces])]
  have htrail : trailFrom [] (dropIdle ps) = trailFrom [] (first :: rest) := by
    rw [(trailFrom_dropIdle _ _).1, ← hinit, (trailFrom_dropIdle _ _).1]
  refine ⟨hparent, ?_, habs, ?_, ?_, ?_⟩
  · by_contra hempty
    have htext : (ofPieces ps).text = "" := by simpa using hempty
    rw [pieces, htext] at hpieces
    exact hroot hpieces.symm
  · intro l hl
    cases h : p.isAbsolute with
    | true => simp [trail, habs, h] at hl
    | false =>
      rw [(trail_eq (habs.trans h)).1, hpieces, htrail] at hl
      rw [(trail_eq h).1, hps, trailFrom_append]
      exact List.mem_append_left _ hl
  · intro l hl
    cases h : p.isAbsolute with
    | true => simp [trail, h] at hl
    | false =>
      rw [(trail_eq h).1, hps] at hl
      rw [(trail_eq (habs.trans h)).1, hpieces, htrail, (trail_eq h).2, hps]
      exact mem_trailFrom_concat hl
  · intro l hl
    unfold turns at hl ⊢
    rw [habs, hpieces] at hl
    split at hl
    · cases hl
    · rename_i hrelative
      rw [if_neg hrelative]
      have hturns := turnsFrom_prefix hfront []
      exact hturns.subset hl

/-- **The folder of a path**: there is none to make, or it is the root, or it lies on the way. -/
theorem parent?_cases (p : Path) :
    ((∀ folder, p.parent? = some folder → folder.text.isEmpty = true) ∧ ∀ l ∈ p.trail, p.place? = some l) ∨
      (p.isAbsolute = true ∧ p.parent? = some ⟨"/"⟩) ∨ ∃ folder, IsFolderOf folder p := by
  cases hps : dropIdle p.pieces with
  | nil =>
    obtain ⟨first, rest, hpieces⟩ := List.exists_cons_of_ne_nil p.pieces_ne_nil
    rw [hpieces, dropIdle] at hps
    cases hps
  | cons first rest =>
    cases rest with
    | nil =>
      refine .inl ⟨fun folder h => ?_, place?_of_single hps⟩
      simp only [Path.parent?, hps] at h
      split at h
      · cases h
      · cases h
        rfl
    | cons second more =>
      obtain ⟨init, last, hinit⟩ : ∃ init last, second :: more = init ++ [last] :=
        ⟨_, _, (List.dropLast_append_getLast (List.cons_ne_nil second more)).symm⟩
      have hdrop : (first :: second :: more).dropLast = first :: init := by
        rw [hinit, ← List.cons_append, List.dropLast_concat]
      by_cases hroot : dropIdle (first :: init) = [[]]
      · refine .inr (.inl ⟨?_, ?_⟩)
        · obtain ⟨idle, hidle⟩ := pieces_of_dropIdle hps
          rw [isAbsolute_of_head hidle (by simp [hidle])]
          rw [dropIdle, List.cons.injEq] at hroot
          simp [hroot.1]
        · simp only [Path.parent?, hps, hdrop, hroot]
      · refine .inr (.inr ⟨_, isFolderOf_of_pieces (by rw [hps, hinit]; rfl) rfl hroot ?_⟩)
        simp only [Path.parent?, hps, hdrop]

end Path

end SceneScript
