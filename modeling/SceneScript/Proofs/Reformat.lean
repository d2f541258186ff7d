import SceneScript.Compile
import SceneScript.Proofs.Line

/-!
# Reformatted scripts

The lines that normalizing gives are canonical: normalizing them again changes nothing.  A text is normalized line
by line, so what leaves every line its content leaves the compiled script the same: other indentation, blanks or
comments at the ends of lines, lines of blanks or comments alone, carriage returns before the line feeds.

    normalize comment (a ++ "\n" ++ b) = normalize comment a ++ normalize comment b     (normalize_append)
    Reformatted comment ls ms → ls and ms have the same contents     (Reformatted.contents_eq)
-/

namespace SceneScript

namespace Line

/-- The line is one that normalizing gives. -/
def IsCanonical (comment : Char) (line : String) : Prop :=
  line ≠ "" ∧ IsContent comment line.toList ∧ '\n' ∉ line.toList

/-- `m` is the line `l` with other blanks around it, or with comments behind it. -/
inductive Restyled (comment : Char) : List Char → List Char → Prop
  | refl (l : List Char) : Restyled comment l l
  | indent {as bs : List Char} (l : List Char) :
      Text.AllBlank as → Text.AllBlank bs → Restyled comment (as ++ l) (bs ++ l)
  | blanks {bs : List Char} (l : List Char) : Text.AllBlank bs → Restyled comment l (l ++ bs)
  | note {l : List Char} (text : List Char) : TakesNote comment l → Restyled comment l (l ++ comment :: text)
  | trans {l m n : List Char} : Restyled comment l m → Restyled comment m n → Restyled comment l n

/-- The lines `ms` are the lines `ls`, each restyled, and others that hold blanks and comments alone. -/
inductive Reformatted (comment : Char) : List (List Char) → List (List Char) → Prop
  | nil : Reformatted comment [] []
  | line {l m : List Char} {ls ms : List (List Char)} :
      Restyled comment l m → Reformatted comment ls ms → Reformatted comment (l :: ls) (m :: ms)
  | insert {m : List Char} {ls ms : List (List Char)} :
      Restyled comment [] m → Reformatted comment ls ms → Reformatted comment ls (m :: ms)

/-- The text between the line feeds. -/
def pieces (text : String) : List (List Char) := Text.splitOn (· == '\n') text.toList

/-- The text with a carriage return before every line feed. -/
def withReturns (text : String) : String :=
  String.ofList (text.toList.flatMap fun c => if c = '\n' then ['\r', '\n'] else [c])

section

variable {comment : Char}

/-! ## Canonical lines -/

theorem tab_not_mem_untab (line : List Char) : '\t' ∉ line.map untab := by
  intro h
  obtain ⟨c, -, hc⟩ := List.mem_map.1 h
  unfold untab at hc
  split at hc
  · cases hc
  · next hne => exact hne hc

theorem feed_not_mem_untab {line : List Char} (h : '\n' ∉ line) : '\n' ∉ line.map untab := by
  intro hmem
  obtain ⟨c, hc, heq⟩ := List.mem_map.1 hmem
  unfold untab at heq
  split at heq
  · cases heq
  · exact h (heq ▸ hc)

theorem exists_append_clean (comment : Char) (line : List Char) :
    ∃ rest, clean comment line ++ rest = Text.trimStart (line.map untab) :=
  (Text.trimEnd_prefix _).trans (List.takeWhile_prefix _)

theorem clean_subset (comment : Char) (line : List Char) : clean comment line ⊆ line.map untab := by
  obtain ⟨rest, hrest⟩ := exists_append_clean comment line
  intro c hc
  exact (List.dropWhile_suffix _).subset (hrest ▸ List.mem_append_left rest hc)

theorem isContent_clean (comment : Char) (line : List Char) : IsContent comment (clean comment line) := by
  refine ⟨⟨?_, ?_⟩, ?_, fun htab => tab_not_mem_untab line (clean_subset comment line htab)⟩
  · intro c hc
    obtain ⟨tail, htail⟩ := List.head?_eq_some_iff.1 hc
    obtain ⟨rest, hrest⟩ := exists_append_clean comment line
    rw [htail] at hrest
    exact Text.head_trimStart hrest.symm
  · exact Text.last_trimEnd _
  · intro hmem
    have hkept := (Text.trimEnd_prefix _).subset hmem
    have hne := List.all_eq_true.1 List.all_takeWhile comment hkept
    simp at hne

theorem isCanonical_of_mem_normalize {text line : String} (h : line ∈ normalize comment text) :
    IsCanonical comment line := by
  rw [normalize_eq] at h
  obtain ⟨content, hcontent, rfl⟩ := List.mem_map.1 h
  obtain ⟨hmem, hne⟩ := List.mem_filter.1 hcontent
  obtain ⟨piece, hpiece, rfl⟩ := List.mem_map.1 hmem
  have hfeed : '\n' ∉ piece := fun hfeed => by simpa using Text.not_of_mem_splitOn hpiece _ hfeed
  refine ⟨?_, ?_, ?_⟩
  · intro hempty
    rw [← String.toList_eq_nil_iff, String.toList_ofList] at hempty
    simp [hempty] at hne
  · rw [String.toList_ofList]
    exact isContent_clean comment piece
  · rw [String.toList_ofList]
    exact fun hmem => feed_not_mem_untab hfeed (clean_subset comment piece hmem)

/-- Canonical lines are left as they are. -/
theorem normalize_of_isCanonical {lines : List String} (h : ∀ line ∈ lines, IsCanonical comment line) :
    normalize comment ("\n".intercalate lines) = lines := by
  by_cases hnil : lines = []
  · rw [hnil]
    rfl
  have hsplit : Text.splitOn (· == '\n') ("\n".intercalate lines).toList = lines.map String.toList := by
    rw [String.toList_intercalate]
    refine Text.splitOn_intercalate (by decide) (by simpa using hnil) ?_
    intro w hw c hc
    obtain ⟨line, hline, rfl⟩ := List.mem_map.1 hw
    rw [beq_eq_false_iff_ne]
    rintro rfl
    exact (h line hline).2.2 hc
  have hclean : (lines.map String.toList).map (clean comment) = lines.map String.toList := by
    rw [List.map_map, List.map_inj_left]
    exact fun line hline => clean_content (h line hline).2.1
  have hkeep : (lines.map String.toList).filter (!·.isEmpty) = lines.map String.toList := by
    rw [List.filter_eq_self]
    intro w hw
    obtain ⟨line, hline, rfl⟩ := List.mem_map.1 hw
    simp [(h line hline).1]
  rw [normalize_eq, hsplit, hclean, hkeep, List.map_map]
  simp [Function.comp_def]

/-- A line feed cuts a text in two, which are normalized on their own. -/
theorem normalize_append (comment : Char) (a b : String) :
    normalize comment (a ++ "\n" ++ b) = normalize comment a ++ normalize comment b := by
  have htext : (a ++ "\n" ++ b).toList = a.toList ++ '\n' :: b.toList := by simp
  rw [normalize_eq, normalize_eq, normalize_eq, htext, Text.splitOn_append_cons (by decide)]
  simp only [List.map_append, List.filter_append]

/-! ## The same content -/

theorem Restyled.clean_eq {l m : List Char} (h : Restyled comment l m) : clean comment m = clean comment l := by
  induction h with
  | refl l => rfl
  | indent l has hbs => rw [clean_append_left has, clean_append_left hbs]
  | blanks l hbs => exact clean_append_blanks hbs l
  | note text hnote => exact clean_append_note hnote text
  | trans _ _ ih ih' => rw [ih', ih]

/-- Reformatting keeps the contents of the lines. -/
theorem Reformatted.contents_eq {ls ms : List (List Char)} (h : Reformatted comment ls ms) :
    (ms.map (clean comment)).filter (!·.isEmpty) = (ls.map (clean comment)).filter (!·.isEmpty) := by
  induction h with
  | nil => rfl
  | line hline _ ih => rw [List.map_cons, List.map_cons, List.filter_cons, List.filter_cons, hline.clean_eq, ih]
  | insert hline _ ih =>
    have hnil : clean comment [] = [] := rfl
    rw [List.map_cons, hline.clean_eq, hnil, List.filter_cons_of_neg (by simp), ih]

theorem Reformatted.normalize_eq {source target : String} (h : Reformatted comment (pieces source) (pieces target)) :
    normalize comment target = normalize comment source := by
  rw [Line.normalize_eq, Line.normalize_eq]
  exact congrArg (List.map String.ofList) h.contents_eq

/-! ## Carriage returns -/

theorem splitOn_withReturns (cs : List Char) :
    List.Forall₂ (fun l m => m = l ∨ m = l ++ ['\r']) (Text.splitOn (· == '\n') cs)
      (Text.splitOn (· == '\n') (cs.flatMap fun c => if c = '\n' then ['\r', '\n'] else [c])) := by
  induction cs with
  | nil => exact .cons (.inl rfl) .nil
  | cons c cs ih =>
    rw [List.flatMap_cons]
    by_cases hc : c = '\n'
    · subst hc
      exact .cons (.inr rfl) ih
    · rw [if_neg hc, List.singleton_append, Text.splitOn, Text.splitOn, if_neg (by simpa using hc),
        if_neg (by simpa using hc)]
      generalize Text.splitOn (· == '\n') cs = ls at ih
      generalize Text.splitOn (· == '\n') (cs.flatMap _) = ms at ih
      cases ih with
      | nil => exact .cons (.inl rfl) .nil
      | cons hline hrest =>
        refine .cons ?_ hrest
        rcases hline with rfl | rfl
        · exact .inl rfl
        · exact .inr rfl

theorem reformatted_withReturns (comment : Char) (text : String) :
    Reformatted comment (pieces text) (pieces (withReturns text)) := by
  have hlines := splitOn_withReturns text.toList
  unfold pieces withReturns
  rw [String.toList_ofList]
  generalize Text.splitOn (· == '\n') text.toList = ls at hlines ⊢
  generalize Text.splitOn (· == '\n') (text.toList.flatMap _) = ms at hlines ⊢
  induction hlines with
  | nil => exact .nil
  | cons hline _ ih =>
    refine .line ?_ ih
    rcases hline with rfl | rfl
    · exact .refl _
    · exact .blanks _ (by simp [Text.AllBlank, Text.isBlank])

/-! ## Where comments may stand -/

/-- A tab never starts a comment: what follows it stays. -/
theorem getLast?_clean_tab {c : Char} (hc : Text.isBlank c = false) (line : List Char) :
    (clean '\t' (line ++ ['\t', c])).getLast? = some c := by
  have hne : c ≠ '\t' := by
    rintro rfl
    exact absurd hc (by decide)
  have hlast : ∃ front, Text.trimStart ((line ++ ['\t', c]).map untab) = front ++ [c] := by
    have hmap : (line ++ ['\t', c]).map untab = (line ++ ['\t']).map untab ++ [c] := by simp [untab, hne]
    rw [hmap, Text.trimStart, List.dropWhile_append]
    split
    · exact ⟨[], by simp [hc]⟩
    · exact ⟨_, rfl⟩
  obtain ⟨front, hfront⟩ := hlast
  have hkeep : (front ++ [c]).takeWhile (· != '\t') = front ++ [c] := by
    have htab : ∀ d ∈ front ++ [c], (d != '\t') = true := by
      intro d hd
      rw [bne_iff_ne]
      rintro rfl
      rw [← hfront] at hd
      exact tab_not_mem_untab _ ((List.dropWhile_suffix _).subset hd)
    rw [← List.append_nil (front ++ [c]), List.takeWhile_append_of_pos htab]
    rfl
  rw [clean_eq, hfront, hkeep, Text.trimEnd_of_last (by simp [hc]), List.getLast?_concat]

/-- The condition on comments cannot be weakened. -/
theorem takesNote_iff (comment : Char) (line : List Char) :
    TakesNote comment line ↔
      ∀ text, '\n' ∉ text → clean comment (line ++ comment :: text) = clean comment line := by
  refine ⟨fun h text _ => clean_append_note h text, fun h => ⟨?_, fun hcomment hline => ?_⟩⟩
  · rintro rfl
    have hx := getLast?_clean_tab (c := 'x') (by decide) line
    have hy := getLast?_clean_tab (c := 'y') (by decide) line
    rw [h ['x'] (by decide)] at hx
    rw [h ['y'] (by decide), hx] at hy
    cases hy
  · have hx := h ['x'] (by decide)
    have hcontent : IsContent comment ['x'] := by
      refine ⟨by simp [Text.Solid, Text.isBlank], ?_, by decide⟩
      rintro hmem
      rw [List.mem_singleton.1 hmem] at hcomment
      cases hcomment
    have hblank : Text.AllBlank [comment] := by simpa [Text.AllBlank] using hcomment
    rw [clean_append_left hline, ← List.singleton_append, clean_append_left hblank, clean_content hcontent,
      clean_of_allBlank hline] at hx
    cases hx

end

/-- **Normalizing is canonical and goes line by line**, whatever the comment symbol; so the compiled script does not
depend on how the source is formatted.  A comment may be added to a line unless its symbol is a tab or, on a line
without content, another blank. -/
theorem normalize_canonical (comment : Char) :
    (∀ text, ∀ line ∈ normalize comment text, IsCanonical comment line) ∧
    (∀ text, normalize comment ("\n".intercalate (normalize comment text)) = normalize comment text) ∧
    (∀ a b, normalize comment (a ++ "\n" ++ b) = normalize comment a ++ normalize comment b) ∧
    (∀ lang : Language, lang.symbols.comment = comment →
      (∀ source target, Reformatted comment (pieces source) (pieces target) →
        compile lang target = compile lang source) ∧
      ∀ source, compile lang (withReturns source) = compile lang source) ∧
    ∀ line, TakesNote comment line ↔
      ∀ text, '\n' ∉ text → clean comment (line ++ comment :: text) = clean comment line := by
  refine ⟨fun text line => isCanonical_of_mem_normalize, fun text => ?_, normalize_append comment, ?_,
    takesNote_iff comment⟩
  · exact normalize_of_isCanonical fun line => isCanonical_of_mem_normalize
  · rintro lang rfl
    have hsame : ∀ source target, Reformatted lang.symbols.comment (pieces source) (pieces target) →
        compile lang target = compile lang source := by
      intro source target h
      unfold compile
      rw [h.normalize_eq]
    exact ⟨hsame, fun source => hsame source _ (reformatted_withReturns _ source)⟩

theorem normalize_canonical_tidied :
    IsCanonical '#' ":stop" ∧ Reformatted '#' (pieces ":stop") (pieces "# start\n\t:stop  # now\r\n") ∧
      compile .english "# start\n\t:stop  # now\r\n" = compile .english ":stop" := by
  obtain ⟨hcanonical, -, -, hsame, -⟩ := normalize_canonical '#'
  have hnote : ∀ line, TakesNote '#' line := takesNote_of_not_blank (by decide)
  have hstart : Restyled '#' [] ['#', ' ', 's', 't', 'a', 'r', 't'] := .note [' ', 's', 't', 'a', 'r', 't'] (hnote _)
  have hstop : Restyled '#' [':', 's', 't', 'o', 'p']
      ['\t', ':', 's', 't', 'o', 'p', ' ', ' ', '#', ' ', 'n', 'o', 'w', '\r'] :=
    .trans (.indent _ .nil (by decide : Text.AllBlank ['\t']))
      (.trans (.blanks _ (by decide : Text.AllBlank [' ', ' '])) (.note [' ', 'n', 'o', 'w', '\r'] (hnote _)))
  have hreformatted : Reformatted '#' (pieces ":stop") (pieces "# start\n\t:stop  # now\r\n") :=
    .insert hstart (.line hstop (.insert (.refl []) .nil))
  refine ⟨hcanonical ":stop" ":stop" ?_, hreformatted, (hsame .english rfl).1 _ _ hreformatted⟩
  decide

/-- A language in which a blank starts comments. -/
def blankNotes (comment : Char) : Language :=
  { Language.english with symbols := { Symbols.english with comment := comment } }

/-- Behind a tab, and behind the blanks before a line, the text counts although the symbol is that of comments. -/
theorem note_counts :
    (compile (blankNotes '\t') (":stop" ++ "\t" ++ "bye")).result =
        .error (.wrongArgumentCount "stop" 0 1 ":stop bye") ∧
      compile (blankNotes '\t') (":stop" ++ "\t" ++ "bye") ≠ compile (blankNotes '\t') ":stop" ∧
      (compile (blankNotes ' ') (":stop\n" ++ " " ++ ":return")).result =
        .ok (.ofCode [.blockEntry 0, .stop, .ret, .stop, .blockEnd]) ∧
      compile (blankNotes ' ') (":stop\n" ++ " " ++ ":return") ≠ compile (blankNotes ' ') ":stop\n" := by
  have hstop : (compile (blankNotes '\t') ":stop").result = .ok (.ofCode [.blockEntry 0, .stop, .blockEnd]) := rfl
  have hbye : (compile (blankNotes '\t') (":stop" ++ "\t" ++ "bye")).result =
      .error (.wrongArgumentCount "stop" 0 1 ":stop bye") := rfl
  have hfeed : (compile (blankNotes ' ') ":stop\n").result = .ok (.ofCode [.blockEntry 0, .stop, .blockEnd]) := rfl
  have hreturn : (compile (blankNotes ' ') (":stop\n" ++ " " ++ ":return")).result =
      .ok (.ofCode [.blockEntry 0, .stop, .ret, .stop, .blockEnd]) := rfl
  refine ⟨hbye, ?_, hreturn, ?_⟩
  · intro heq
    rw [heq, hstop] at hbye
    cases hbye
  · intro heq
    rw [heq, hfeed] at hreturn
    cases hreturn

end Line

end SceneScript
