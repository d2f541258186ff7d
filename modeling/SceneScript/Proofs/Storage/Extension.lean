import SceneScript.Batch.Job
import SceneScript.Proofs.Storage.Path

/-!
# Names below a folder, and their extensions

The pieces of a path below a folder are those of the folder and the names.  Replacing the extension of such a path
changes its last name only: the text before the last dot stays, unless it is a single dot, where nothing but
`..` is left.

    (folder.below names).pieces = base ++ names                      (exists_base)
    p.withExtension ext = ofPieces (front ++ [renamed stem ext])     (withExtension_eq)
-/

namespace SceneScript

namespace Path

/-! ## Names and their stems -/

theorem splitName_eq_some_iff {name stem old : List Char} :
    splitName name = (stem, some old) ↔ name = stem ++ '.' :: old ∧ stem ≠ [] ∧ '.' ∉ old := by
  have hcut : splitName name = (stem, some old) ↔ cutLast '.' name = some (stem, old) ∧ stem ≠ [] := by
    unfold splitName
    rcases cutLast '.' name with _ | ⟨_ | ⟨c, before⟩, after⟩
    · simp
    · simp only [Prod.mk.injEq, reduceCtorEq, and_false, Option.some.injEq, false_iff, not_and, not_not]
      exact fun h => h.1.symm
    · simp only [Prod.mk.injEq, Option.some.injEq]
      exact ⟨fun h => ⟨h, h.1 ▸ List.cons_ne_nil _ _⟩, fun h => h.1⟩
  rw [hcut, cutLast_eq_some_iff, and_assoc, and_comm (a := '.' ∉ old)]

theorem exists_stem {name ext : List Char} (h : (splitName name).2 = some ext) :
    ∃ stem, splitName name = (stem, some ext) := ⟨(splitName name).1, by rw [← h]⟩

/-- What follows the last dot. -/
def lastPart (ext : List Char) : List Char := ((cutLast '.' ext).map Prod.snd).getD ext

theorem dot_not_mem_lastPart (ext : List Char) : '.' ∉ lastPart ext := by
  cases hcut : cutLast '.' ext with
  | none =>
    rw [lastPart, hcut]
    exact cutLast_eq_none_iff.1 hcut
  | some parts =>
    rw [lastPart, hcut]
    exact (cutLast_eq_some_iff.1 hcut).2

theorem lastPart_of_no_dot {ext : List Char} (h : '.' ∉ ext) : lastPart ext = ext := by
  rw [lastPart, cutLast_eq_none_iff.2 h]
  rfl

/-- The extension of a name does not hang on what stands before its dots. -/
theorem splitName_append {stem : List Char} (hstem : stem ≠ []) (ext : List Char) :
    (splitName (stem ++ '.' :: ext)).2 = some (lastPart ext) := by
  cases hcut : cutLast '.' ext with
  | none =>
    rw [splitName_eq_some_iff.2 ⟨rfl, hstem, cutLast_eq_none_iff.1 hcut⟩, lastPart, hcut]
    rfl
  | some parts =>
    obtain ⟨before, after⟩ := parts
    obtain ⟨rfl, hafter⟩ := cutLast_eq_some_iff.1 hcut
    have hname : stem ++ '.' :: (before ++ '.' :: after) = (stem ++ '.' :: before) ++ '.' :: after := by simp
    rw [splitName_eq_some_iff.2 ⟨hname, by simp, hafter⟩, lastPart, hcut]
    rfl

theorem dropIdle_concat (front : List (List Char)) {name : List Char} (h : isIdle name = false) :
    dropIdle (front ++ [name]) = front ++ [name] := by
  cases front with
  | nil => rfl
  | cons first rest => simp [dropIdle, h]

theorem name?_of_pieces {p : Path} {front : List (List Char)} {name : List Char} (hpieces : p.pieces = front ++ [name])
    (hidle : isIdle name = false) : p.name? = if name = ['.', '.'] then none else some name := by
  rw [name?, hpieces, dropIdle_concat front hidle, List.getLast?_concat]
  simp [hidle]

theorem intercalate_concat (front : List (List Char)) (as bs : List Char) :
    ['/'].intercalate (front ++ [as ++ bs]) = ['/'].intercalate (front ++ [as]) ++ bs := by
  induction front with
  | nil => simp
  | cons first rest ih =>
    cases rest with
    | nil => simp [List.intercalate_cons_cons]
    | cons second rest =>
      simp only [List.cons_append, List.intercalate_cons_cons] at ih ⊢
      rw [ih, List.append_assoc, List.append_assoc, List.append_assoc]

theorem toList_text_ofPieces (ps : List (List Char)) : (ofPieces ps).text.toList = ['/'].intercalate ps := by
  rw [ofPieces, String.toList_intercalate, List.map_map]
  simp [Function.comp_def]

theorem ext_toList {p q : Path} (h : p.text.toList = q.text.toList) : p = q := by
  cases p
  cases q
  exact congrArg Path.mk (String.toList_inj.1 h)

/-- Appending to the text of a path is appending to its last piece. -/
theorem text_ofPieces_append (front : List (List Char)) (name : List Char) (s : String) :
    (⟨(ofPieces (front ++ [name])).text ++ s⟩ : Path) = ofPieces (front ++ [name ++ s.toList]) := by
  refine ext_toList ?_
  rw [String.toList_append, toList_text_ofPieces, toList_text_ofPieces, intercalate_concat]

/-- What becomes of a name with another extension. -/
def renamed (stem ext : List Char) : List Char := if stem = ['.'] then ['.', '.'] else stem ++ '.' :: ext

theorem pieces_concat {front : List (List Char)} {name : List Char} (hfront : ∀ piece ∈ front, '/' ∉ piece)
    (hname : '/' ∉ name) : (ofPieces (front ++ [name])).pieces = front ++ [name] := by
  refine pieces_ofPieces (by simp) fun piece hpiece => ?_
  rcases List.mem_append.1 hpiece with hpiece | hpiece
  · exact hfront piece hpiece
  · rwa [List.mem_singleton.1 hpiece]

theorem replaceExtension_eq {p : Path} {front : List (List Char)} {name : List Char}
    (hpieces : p.pieces = front ++ [name]) (hname : FileTree.isDots name = false) (ext : String) :
    p.replaceExtension ext =
      ofPieces (front ++ [(splitName name).1 ++ if ext.isEmpty then [] else '.' :: ext.toList]) := by
  obtain ⟨hidle, hdots⟩ := isDots_eq_false_iff.1 hname
  have hname? : p.name? = some name := by rw [name?_of_pieces hpieces hidle, if_neg hdots]
  simp only [replaceExtension, hname?, hpieces, dropIdle_concat front hidle, List.dropLast_concat]
  rw [text_ofPieces_append]
  congr 4
  split
  · rfl
  · simp

/-- Cutting the extension off the text of a path leaves the name with its dot. -/
theorem take_text {p : Path} {front : List (List Char)} {stem old : List Char}
    (hpieces : p.pieces = front ++ [stem ++ '.' :: old]) :
    (⟨String.ofList (p.text.toList.take (p.text.toList.length - old.length))⟩ : Path) =
      ofPieces (front ++ [stem ++ ['.']]) := by
  have htext : p.text.toList = ['/'].intercalate (front ++ [stem ++ ['.']]) ++ old := by
    conv_lhs => rw [← ofPieces_pieces p, toList_text_ofPieces, hpieces]
    rw [← intercalate_concat, List.append_assoc, List.singleton_append]
  refine ext_toList ?_
  rw [String.toList_ofList, htext, List.length_append, Nat.add_sub_cancel, List.take_left, toList_text_ofPieces]

/-- **Only the last name changes with the extension.** -/
theorem withExtension_eq {p : Path} {front : List (List Char)} {name stem old : List Char}
    (hpieces : p.pieces = front ++ [name]) (hname : FileTree.isDots name = false)
    (hsplit : splitName name = (stem, some old)) {ext : String} (hext : ext ≠ "") :
    p.withExtension ext = ofPieces (front ++ [renamed stem ext.toList]) := by
  obtain ⟨hidle, hdots⟩ := isDots_eq_false_iff.1 hname
  obtain ⟨rfl, hstem, -⟩ := splitName_eq_some_iff.1 hsplit
  have hold : p.extension? = some old := by
    rw [extension?, name?_of_pieces hpieces hidle, if_neg hdots, Option.bind_some, hsplit]
  have hpieces' : (ofPieces (front ++ [stem ++ ['.']])).pieces = front ++ [stem ++ ['.']] := by
    refine pieces_concat (fun piece hpiece => not_mem_piece (hpieces ▸ List.mem_append_left _ hpiece)) fun hslash => ?_
    have hlast : '/' ∉ stem ++ '.' :: old := not_mem_piece (hpieces ▸ List.mem_append_right _ List.mem_cons_self)
    exact hlast (by simpa using Or.inl (by simpa using hslash))
  have hidle' : isIdle (stem ++ ['.']) = false := by
    cases stem with
    | nil => exact absurd rfl hstem
    | cons c stem => cases stem <;> simp [isIdle]
  rw [withExtension, hold]
  simp only
  rw [take_text hpieces]
  by_cases hdot : stem = ['.']
  · subst hdot
    have hname? : (ofPieces (front ++ [['.'] ++ ['.']])).name? = none :=
      (name?_of_pieces hpieces' hidle').trans (if_pos rfl)
    rw [replaceExtension, hname?, renamed, if_pos rfl]
    rfl
  · have hplain : FileTree.isDots (stem ++ ['.']) = false := by
      refine isDots_eq_false_iff.2 ⟨hidle', fun heq => hdot ?_⟩
      exact List.append_cancel_right (heq.trans (rfl : _ = ['.'] ++ ['.']))
    have hempty : ext.isEmpty = false := by simpa using hext
    rw [replaceExtension_eq hpieces' hplain, renamed, if_neg hdot,
      splitName_eq_some_iff.2 ⟨rfl, hstem, by simp⟩, hempty]
    rfl

/-- Names stay different with another extension. -/
theorem renamed_inj {ext stem stem' : List Char} (hext : ext ≠ []) (hstem : stem ≠ []) (hstem' : stem' ≠ []) :
    renamed stem ext = renamed stem' ext ↔ stem = stem' := by
  have hdots : ∀ s : List Char, s ≠ [] → s ++ '.' :: ext ≠ ['.', '.'] := by
    intro s hs heq
    have hlength := congrArg List.length heq
    have := List.length_pos_iff.2 hs
    have := List.length_pos_iff.2 hext
    simp at hlength
    omega
  refine ⟨fun h => ?_, fun h => h ▸ rfl⟩
  unfold renamed at h
  split at h
  · rename_i hdot
    split at h
    · rename_i hdot'
      rw [hdot, hdot']
    · exact absurd h.symm (hdots stem' hstem')
  · split at h
    · exact absurd h (hdots stem hstem)
    · exact List.append_cancel_right h

/-! ## Paths below a folder -/

/-- A name that a file or folder may have. -/
def IsFileName (name : String) : Prop := FileTree.isDots name.toList = false ∧ '/' ∉ name.toList

instance (name : String) : Decidable (IsFileName name) :=
  inferInstanceAs (Decidable (FileTree.isDots name.toList = false ∧ '/' ∉ name.toList))

/-- The pieces that a folder gives to what lies below it. -/
structure IsBase (folder : Path) (base : List (List Char)) : Prop where
  slash_not_mem : ∀ piece ∈ base, '/' ∉ piece
  pieces_below : ∀ names : Location, names ≠ [] → (∀ name ∈ names, IsFileName name) →
    (folder.below names).pieces = base ++ names.map String.toList

/-- **The pieces of a path below a folder** are some of the folder and the names. -/
theorem exists_base (folder : Path) : ∃ base, IsBase folder base := by
  have hnames : ∀ names : Location, names ≠ [] → (∀ name ∈ names, IsFileName name) →
      Text.splitOn (· == '/') ("/".intercalate names).toList = names.map String.toList := by
    intro names hne hproper
    rw [String.toList_intercalate]
    refine Text.splitOn_intercalate (by decide) (by simpa using hne) fun w hw c hc => ?_
    obtain ⟨name, hname, rfl⟩ := List.mem_map.1 hw
    rw [beq_eq_false_iff_ne]
    rintro rfl
    exact (hproper name hname).2 hc
  have hjoin : ∀ names, (folder.below names).text.toList =
      if folder.text.isEmpty || folder.text.toList.getLast? = some '/' then
        folder.text.toList ++ ("/".intercalate names).toList
      else folder.text.toList ++ '/' :: ("/".intercalate names).toList := by
    intro names
    unfold below join
    split <;> simp
  by_cases hempty : folder.text = ""
  · refine ⟨[], by simp, fun names hne hproper => ?_⟩
    rw [pieces, hjoin, hempty, if_pos (by rfl)]
    simpa using hnames names hne hproper
  · have hempty' : folder.text.isEmpty = false := by simpa using hempty
    by_cases hslash : folder.text.toList.getLast? = some '/'
    · obtain ⟨text, htext⟩ := List.getLast?_eq_some_iff.1 hslash
      refine ⟨Text.splitOn (· == '/') text, fun piece hpiece => ?_, fun names hne hproper => ?_⟩
      · exact not_mem_piece (p := ⟨String.ofList text⟩) (by rwa [pieces, String.toList_ofList])
      · rw [pieces, hjoin, hslash, if_pos (by simp), htext, List.append_assoc, List.singleton_append,
          Text.splitOn_append_cons (by decide), hnames names hne hproper]
    · refine ⟨folder.pieces, fun piece hpiece => not_mem_piece hpiece, fun names hne hproper => ?_⟩
      rw [pieces, hjoin, if_neg (by simp [hempty', hslash]), Text.splitOn_append_cons (by decide),
        hnames names hne hproper, pieces]

/-- Where a path leads that ends with names. -/
theorem filePlace?_eq_some {p : Path} {base names : List (List Char)} {last : List Char} {l : Location}
    (hpieces : p.pieces = base ++ (names ++ [last])) (hnames : ∀ name ∈ names, FileTree.isDots name = false)
    (h : p.filePlace? = some l) :
    ∃ k, placeFrom? [] base = some k ∧ l = k ++ (names ++ [last]).map String.ofList := by
  have hplace := place?_of_filePlace? h
  rw [filePlace?, hpieces, ← List.append_assoc, List.getLast?_concat, Option.getD_some] at h
  split at h
  · cases h
  · rename_i hlast
    rw [place?] at hplace
    split at hplace
    · cases hplace
    · rw [hpieces, placeFrom?_append] at hplace
      cases hbase : placeFrom? [] base with
      | none =>
        rw [hbase] at hplace
        cases hplace
      | some k =>
        refine ⟨k, rfl, ?_⟩
        have hall : ∀ name ∈ names ++ [last], FileTree.isDots name = false := by
          intro name hname
          rcases List.mem_append.1 hname with hname | hname
          · exact hnames name hname
          · rw [List.mem_singleton.1 hname]
            simpa using hlast
        rw [hbase, Option.bind_some, placeFrom?_names hall] at hplace
        exact (Option.some.inj hplace).symm

/-- Below one folder, different paths lead to different places. -/
theorem eq_of_filePlace? {p q : Path} {base names names' : List (List Char)} {last last' : List Char} {l : Location}
    (hp : p.pieces = base ++ (names ++ [last])) (hq : q.pieces = base ++ (names' ++ [last']))
    (hnames : ∀ name ∈ names, FileTree.isDots name = false) (hnames' : ∀ name ∈ names', FileTree.isDots name = false)
    (h : p.filePlace? = some l) (h' : q.filePlace? = some l) : p = q := by
  obtain ⟨k, hk, hl⟩ := filePlace?_eq_some hp hnames h
  obtain ⟨k', hk', hl'⟩ := filePlace?_eq_some hq hnames' h'
  rw [hk, Option.some_inj] at hk'
  rw [hl, hk', List.append_cancel_left_eq] at hl'
  have heq : names ++ [last] = names' ++ [last'] :=
    List.map_injective_iff.2 (fun _ _ hcs => String.ofList_inj.1 hcs) hl'
  rw [← ofPieces_pieces p, ← ofPieces_pieces q, hp, hq, heq]

end Path

end SceneScript
