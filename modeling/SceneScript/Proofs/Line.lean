import Mathlib.Data.List.Forall2
import SceneScript.Line
import SceneScript.Proofs.Text

/-!
# Lines with indentation and comments

A line of a script carries some content between blanks, before a comment.  Whatever the blanks and comments are,
normalizing gives the contents back.

    Forall₂ (Carries comment) pieces contents →
      normalize comment (pieces, with line feeds between) = the contents that are not empty
                                                                     (normalize_of_carries)
-/

namespace SceneScript.Line

/-- The content has no blanks at its ends and holds no tab and no comment. -/
def IsContent (comment : Char) (content : List Char) : Prop :=
  Text.Solid content ∧ comment ∉ content ∧ '\t' ∉ content

/-- The line is the content with blanks around it, and maybe a comment after it. -/
def Carries (comment : Char) (line content : List Char) : Prop :=
  '\n' ∉ line ∧
    ∃ indent trailing note, Text.AllBlank indent ∧ Text.AllBlank trailing ∧
      (note = [] ∨ ∃ text, note = comment :: text) ∧
      line = indent ++ (content ++ (trailing ++ note))

section

variable {comment : Char}

/-! ## One line -/

/-- A tab counts as a space. -/
def untab (c : Char) : Char := if c = '\t' then ' ' else c

theorem isBlank_untab (c : Char) : Text.isBlank (untab c) = Text.isBlank c := by
  unfold untab
  split
  · next htab =>
    subst htab
    decide
  · rfl

theorem allBlank_untab {bs : List Char} (h : Text.AllBlank bs) : Text.AllBlank (bs.map untab) := by
  intro c hc
  obtain ⟨d, hd, rfl⟩ := List.mem_map.1 hc
  rw [isBlank_untab]
  exact h d hd

theorem map_untab {cs : List Char} (h : '\t' ∉ cs) : cs.map untab = cs := by
  have hsame : ∀ c ∈ cs, untab c = id c := by
    intro c hc
    refine if_neg ?_
    rintro rfl
    exact h hc
  rw [List.map_congr_left hsame, List.map_id]

theorem clean_eq (line : List Char) :
    clean comment line =
      Text.trimEnd ((Text.trimStart (line.map untab)).takeWhile (· != comment)) := rfl

theorem clean_of_allBlank {line : List Char} (h : Text.AllBlank line) : clean comment line = [] := by
  have htrim : Text.trimStart (line.map untab) = [] := by
    have hnil := Text.trimStart_append (allBlank_untab h) []
    rwa [List.append_nil] at hnil
  rw [clean_eq, htrim]
  rfl

theorem clean_content {content : List Char} (h : IsContent comment content) : clean comment content = content := by
  obtain ⟨hsolid, hfree, htab⟩ := h
  have hkept : ∀ c ∈ content, (c != comment) = true := by
    intro c hc
    rw [bne_iff_ne]
    rintro rfl
    exact hfree hc
  have hkeep : content.takeWhile (· != comment) = content := by
    rw [← List.append_nil content, List.takeWhile_append_of_pos hkept]
    rfl
  rw [clean_eq, map_untab htab, Text.trimStart_of_head hsolid.1, hkeep, Text.trimEnd_of_last hsolid.2]

/-- Indentation does not count. -/
theorem clean_append_left {indent : List Char} (h : Text.AllBlank indent) (line : List Char) :
    clean comment (indent ++ line) = clean comment line := by
  rw [clean_eq, clean_eq, List.map_append, Text.trimStart_append (allBlank_untab h)]

/-- What follows a line does not count if only blanks stand in it before a comment; after a line of blanks alone,
it has to be such a line itself. -/
theorem clean_append {line tail : List Char} (hstop : Text.AllBlank ((tail.map untab).takeWhile (· != comment)))
    (hblank : Text.AllBlank line → clean comment tail = []) :
    clean comment (line ++ tail) = clean comment line := by
  by_cases hline : Text.AllBlank line
  · rw [clean_append_left hline, hblank hline, clean_of_allBlank hline]
  · have hne : Text.trimStart (line.map untab) ≠ [] := by
      intro hnil
      obtain ⟨bs, hbs, hmap⟩ := Text.exists_blanks (line.map untab)
      rw [hnil, List.append_nil] at hmap
      refine hline fun c hc => ?_
      rw [← isBlank_untab]
      exact hbs _ (hmap ▸ List.mem_map_of_mem hc)
    have hstart : Text.trimStart (line.map untab ++ tail.map untab) =
        Text.trimStart (line.map untab) ++ tail.map untab := by
      have hempty : ¬(Text.trimStart (line.map untab)).isEmpty = true := by simpa using hne
      rw [Text.trimStart, List.dropWhile_append, ← Text.trimStart, if_neg hempty]
    rw [clean_eq, clean_eq, List.map_append, hstart, List.takeWhile_append]
    split
    · rename_i hall
      rw [Text.trimEnd_append hstop, (List.takeWhile_prefix _).eq_of_length hall]
    · rfl

theorem clean_append_blanks {bs : List Char} (h : Text.AllBlank bs) (line : List Char) :
    clean comment (line ++ bs) = clean comment line := by
  refine clean_append (fun c hc => ?_) fun _ => clean_of_allBlank h
  exact allBlank_untab h c ((List.takeWhile_sublist _).subset hc)

/-- A comment may follow the line.  A tab counts as a space and starts no comment, and at the start of a line
other blanks do not start one either. -/
def TakesNote (comment : Char) (line : List Char) : Prop :=
  comment ≠ '\t' ∧ (Text.isBlank comment = true → ¬Text.AllBlank line)

theorem takesNote_of_not_blank (h : Text.isBlank comment = false) (line : List Char) : TakesNote comment line := by
  refine ⟨?_, fun hblank => ?_⟩
  · rintro rfl
    exact absurd h (by decide)
  · rw [h] at hblank
    cases hblank

theorem clean_append_note {line : List Char} (h : TakesNote comment line) (text : List Char) :
    clean comment (line ++ comment :: text) = clean comment line := by
  have hmap : (comment :: text).map untab = comment :: text.map untab := by simp [untab, h.1]
  have hnone : ((comment :: text).map untab).takeWhile (· != comment) = [] := by simp [hmap]
  refine clean_append (hnone ▸ Text.AllBlank.nil) fun hline => ?_
  have hcomment : Text.isBlank comment = false := by
    rw [← Bool.not_eq_true]
    exact fun hblank => h.2 hblank hline
  rw [clean_eq, hmap, Text.trimStart_cons hcomment, ← hmap, hnone]
  rfl

theorem clean_of_carries (hcomment : Text.isBlank comment = false) {line content : List Char}
    (hcontent : IsContent comment content) (h : Carries comment line content) :
    clean comment line = content := by
  obtain ⟨-, indent, trailing, note, hindent, htrailing, hnote, rfl⟩ := h
  rw [clean_append_left hindent, ← List.append_assoc]
  rcases hnote with rfl | ⟨text, rfl⟩
  · rw [List.append_nil, clean_append_blanks htrailing, clean_content hcontent]
  · rw [clean_append_note (takesNote_of_not_blank hcomment _), clean_append_blanks htrailing, clean_content hcontent]

/-- A carriage return at the end of a line does not count. -/
theorem clean_dropReturn (line : List Char) : clean comment (dropReturn line) = clean comment line := by
  unfold dropReturn
  split
  · rename_i hlast
    obtain ⟨front, rfl⟩ := List.getLast?_eq_some_iff.1 hlast
    have hblank : Text.AllBlank ['\r'] := by simp [Text.AllBlank, Text.isBlank]
    rw [List.dropLast_concat, clean_append_blanks hblank]
  · rfl

/-! ## All lines -/

theorem map_clean_endPieces (pieces : List (List Char)) :
    ((endPieces pieces).map (clean comment)).filter (!·.isEmpty) =
      (pieces.map (clean comment)).filter (!·.isEmpty) := by
  induction pieces with
  | nil => rfl
  | cons line rest ih =>
    cases rest with
    | nil =>
      rw [endPieces]
      split
      · rename_i h
        obtain rfl : line = [] := by simpa using h
        rfl
      · rfl
    | cons next rest =>
      rw [endPieces, List.map_cons, List.map_cons, clean_dropReturn, List.filter_cons,
        List.filter_cons, ih]
      simp

/-- The lines of a script, piece by piece between its line feeds. -/
theorem normalize_eq (text : String) :
    normalize comment text =
      (((Text.splitOn (· == '\n') text.toList).map (clean comment)).filter (!·.isEmpty)).map String.ofList := by
  rw [normalize, ofText, map_clean_endPieces]

theorem map_clean_of_carries (hcomment : Text.isBlank comment = false)
    {pieces contents : List (List Char)} (h : List.Forall₂ (Carries comment) pieces contents)
    (hcontents : ∀ content ∈ contents, IsContent comment content) :
    pieces.map (clean comment) = contents := by
  induction h with
  | nil => rfl
  | cons hline _ ih =>
    rw [List.map_cons, clean_of_carries hcomment (hcontents _ List.mem_cons_self) hline,
      ih fun content hc => hcontents content (List.mem_cons_of_mem _ hc)]

theorem feed_of_carries {pieces contents : List (List Char)}
    (h : List.Forall₂ (Carries comment) pieces contents) :
    ∀ w ∈ pieces, ∀ d ∈ w, (d == '\n') = false := by
  induction h with
  | nil => simp
  | cons hline _ ih =>
    intro w hw d hd
    rcases List.mem_cons.1 hw with rfl | hw
    · rw [beq_eq_false_iff_ne]
      rintro rfl
      exact hline.1 hd
    · exact ih w hw d hd

/-- **Normalizing gives the contents of the lines back**, without the empty ones. -/
theorem normalize_of_carries (hcomment : Text.isBlank comment = false)
    {pieces contents : List (List Char)} (hne : pieces ≠ [])
    (h : List.Forall₂ (Carries comment) pieces contents)
    (hcontents : ∀ content ∈ contents, IsContent comment content) {source : String}
    (hsource : source.toList = ['\n'].intercalate pieces) :
    normalize comment source = (contents.filter (!·.isEmpty)).map String.ofList := by
  rw [normalize_eq, hsource, Text.splitOn_intercalate (by decide) hne (feed_of_carries h),
    map_clean_of_carries hcomment h hcontents]

end

end SceneScript.Line
