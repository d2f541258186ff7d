import SceneScript.Call
import SceneScript.Expr.Parser

/-!
# Cutting text

What the functions that take characters off the front of a text leave, said by appending: blanks, a given
beginning, and the longest run of characters of a kind.

    cs = blanks ++ trimStart cs                                      (exists_blanks)
    dropPrefix? head cs = some rest ↔ cs = head ++ rest              (dropPrefix?_eq_some_iff)
    (run ++ rest).takeWhile p = run, if rest does not go on          (takeWhile_run)
    cutLast b cs = some (before, after) ↔ cs = before ++ b :: after ∧ b ∉ after    (cutLast_eq_some_iff)
-/

namespace SceneScript

namespace Text

/-- A statement on all characters of a text is decided along the text, not along all characters there are. -/
instance (priority := 2000) decidableForallMem (P : Char → Prop) [DecidablePred P] (cs : List Char) :
    Decidable (∀ c ∈ cs, P c) :=
  List.decidableBAll P cs

/-- All characters of the text are blank. -/
def AllBlank (cs : List Char) : Prop := ∀ c ∈ cs, isBlank c = true

instance (cs : List Char) : Decidable (AllBlank cs) := inferInstanceAs (Decidable (∀ c ∈ cs, isBlank c = true))

theorem AllBlank.nil : AllBlank [] := by simp [AllBlank]

theorem AllBlank.space : AllBlank [' '] := by simp [AllBlank, isBlank]

theorem AllBlank.append {as bs : List Char} (ha : AllBlank as) (hb : AllBlank bs) : AllBlank (as ++ bs) := by
  intro c hc
  rcases List.mem_append.1 hc with hc | hc
  · exact ha c hc
  · exact hb c hc

theorem AllBlank.of_cons {c : Char} {cs : List Char} (h : AllBlank (c :: cs)) :
    isBlank c = true ∧ AllBlank cs :=
  ⟨h c List.mem_cons_self, fun d hd => h d (List.mem_cons_of_mem _ hd)⟩

theorem exists_blanks (cs : List Char) : ∃ bs, AllBlank bs ∧ cs = bs ++ trimStart cs :=
  ⟨cs.takeWhile isBlank, List.all_eq_true.1 List.all_takeWhile, List.takeWhile_append_dropWhile.symm⟩

theorem trimStart_append {bs : List Char} (h : AllBlank bs) (cs : List Char) :
    trimStart (bs ++ cs) = trimStart cs :=
  List.dropWhile_append_of_pos h

theorem trimStart_cons {c : Char} (h : isBlank c = false) (cs : List Char) :
    trimStart (c :: cs) = c :: cs := by
  simp [trimStart, h]

@[simp] theorem trimStart_trimStart (cs : List Char) : trimStart (trimStart cs) = trimStart cs := by
  obtain ⟨bs, hbs, h⟩ := exists_blanks cs
  have := trimStart_append hbs (trimStart cs)
  rwa [← h, eq_comm] at this

theorem trimEnd_prefix (cs : List Char) : trimEnd cs <+: cs := by
  rw [← List.reverse_suffix, trimEnd, List.reverse_reverse]
  exact List.dropWhile_suffix _

theorem head_trimStart {c : Char} {cs tail : List Char} (h : trimStart cs = c :: tail) :
    isBlank c = false := by
  have := List.head?_dropWhile_not isBlank cs
  rw [show cs.dropWhile isBlank = c :: tail from h] at this
  simpa using this

/-- A text without blanks at its ends does not start with a blank. -/
@[simp] theorem trimStart_trim (cs : List Char) : trimStart (trim cs) = trim cs := by
  unfold trim
  obtain ⟨rest, hrest⟩ := trimEnd_prefix (trimStart cs)
  cases h : trimEnd (trimStart cs) with
  | nil => rfl
  | cons c tail =>
    rw [h, List.cons_append] at hrest
    exact trimStart_cons (head_trimStart hrest.symm) tail

/-- The text has no blanks at its ends. -/
def Solid (cs : List Char) : Prop :=
  (∀ c ∈ cs.head?, isBlank c = false) ∧ ∀ c ∈ cs.getLast?, isBlank c = false

theorem trimEnd_append {bs : List Char} (h : AllBlank bs) (cs : List Char) :
    trimEnd (cs ++ bs) = trimEnd cs := by
  have hreverse : AllBlank bs.reverse := fun c hc => h c (List.mem_reverse.1 hc)
  rw [trimEnd, List.reverse_append, List.dropWhile_append_of_pos hreverse, trimEnd]

theorem trimEnd_of_last {cs : List Char} (h : ∀ c ∈ cs.getLast?, isBlank c = false) :
    trimEnd cs = cs := by
  rw [← List.head?_reverse] at h
  unfold trimEnd
  cases hcs : cs.reverse with
  | nil => simpa using hcs.symm
  | cons c rest =>
    rw [hcs] at h
    rw [List.dropWhile_cons, h c rfl, if_neg (by decide), ← hcs, List.reverse_reverse]

theorem trimStart_of_head {cs : List Char} (h : ∀ c ∈ cs.head?, isBlank c = false) :
    trimStart cs = cs := by
  cases cs with
  | nil => rfl
  | cons c cs => exact trimStart_cons (h c rfl) cs

theorem Solid.trimStart_append {cs : List Char} (h : Solid cs) (hne : cs ≠ []) (rest : List Char) :
    trimStart (cs ++ rest) = cs ++ rest := by
  obtain ⟨c, cs, rfl⟩ := List.exists_cons_of_ne_nil hne
  exact trimStart_cons (h.1 c rfl) (cs ++ rest)

theorem Solid.trim_eq {cs : List Char} (h : Solid cs) : trim cs = cs := by
  rw [trim, trimStart_of_head h.1, trimEnd_of_last h.2]

/-- Trimming takes off exactly the blanks around a solid text. -/
theorem Solid.trim_append {cs : List Char} (h : Solid cs) {as bs : List Char} (ha : AllBlank as)
    (hb : AllBlank bs) : trim (as ++ (cs ++ bs)) = cs := by
  rw [trim, Text.trimStart_append ha]
  by_cases hcs : cs = []
  · subst hcs
    have hnil : trimStart (bs ++ []) = [] := Text.trimStart_append hb []
    rw [List.nil_append, ← List.append_nil bs, hnil]
    rfl
  · rw [h.trimStart_append hcs, trimEnd_append hb, trimEnd_of_last h.2]

theorem solid_nil : Solid [] := by simp [Solid]

theorem exists_blanks_end (cs : List Char) : ∃ bs, AllBlank bs ∧ cs = trimEnd cs ++ bs := by
  obtain ⟨bs, hbs, h⟩ := exists_blanks cs.reverse
  refine ⟨bs.reverse, fun c hc => hbs c (List.mem_reverse.1 hc), ?_⟩
  rw [trimEnd, ← List.reverse_append, ← trimStart, ← h, List.reverse_reverse]

/-- What trimming takes off are blanks. -/
theorem exists_trim (cs : List Char) : ∃ as bs, AllBlank as ∧ AllBlank bs ∧ cs = as ++ (trim cs ++ bs) := by
  obtain ⟨as, has, hstart⟩ := exists_blanks cs
  obtain ⟨bs, hbs, hend⟩ := exists_blanks_end (trimStart cs)
  refine ⟨as, bs, has, hbs, ?_⟩
  rw [trim, ← hend]
  exact hstart

theorem last_trimEnd (cs : List Char) : ∀ c ∈ (trimEnd cs).getLast?, isBlank c = false := by
  intro c hc
  rw [trimEnd, List.getLast?_reverse] at hc
  have := List.head?_dropWhile_not isBlank cs.reverse
  rw [hc] at this
  simpa using this

theorem solid_trim (cs : List Char) : Solid (trim cs) := by
  refine ⟨?_, last_trimEnd _⟩
  intro c hc
  obtain ⟨tail, htail⟩ := List.head?_eq_some_iff.1 hc
  exact head_trimStart ((trimStart_trim cs).trans htail)

/-- Blanks after a text do not matter when it is trimmed. -/
theorem trim_append_blanks {bs : List Char} (h : AllBlank bs) (cs : List Char) : trim (cs ++ bs) = trim cs := by
  obtain ⟨as, bs', has, hbs', hcs⟩ := exists_trim cs
  have hsolid := solid_trim cs
  have htrim : trim (as ++ (trim cs ++ (bs' ++ bs))) = trim cs := hsolid.trim_append has (hbs'.append h)
  rwa [← List.append_assoc (trim cs), ← List.append_assoc as, ← hcs] at htrim

theorem solid_of_forall {cs : List Char} (h : ∀ c ∈ cs, isBlank c = false) : Solid cs :=
  ⟨fun c hc => h c (List.mem_of_mem_head? hc), fun c hc => h c (List.mem_of_mem_getLast? hc)⟩

theorem Solid.eq_nil {cs : List Char} (h : Solid cs) (hblank : AllBlank cs) : cs = [] := by
  cases cs with
  | nil => rfl
  | cons c cs =>
    have hc := h.1 c rfl
    rw [hblank.of_cons.1] at hc
    cases hc

theorem Solid.append {cs ds : List Char} (hc : Solid cs) (hd : Solid ds) : Solid (cs ++ ds) := by
  constructor
  · intro c h
    rw [List.head?_append] at h
    rcases Option.or_eq_some_iff.1 h with h | ⟨-, h⟩
    · exact hc.1 c h
    · exact hd.1 c h
  · intro c h
    rw [List.getLast?_append] at h
    rcases Option.or_eq_some_iff.1 h with h | ⟨-, h⟩
    · exact hd.2 c h
    · exact hc.2 c h

/-- A text between two that are not blank at the outer ends. -/
theorem Solid.between {cs ds : List Char} (hc : Solid cs) (hcne : cs ≠ []) (hd : Solid ds) (hdne : ds ≠ [])
    (mid : List Char) : Solid (cs ++ (mid ++ ds)) := by
  refine ⟨?_, ?_⟩
  · obtain ⟨c, cs, rfl⟩ := List.exists_cons_of_ne_nil hcne
    simpa using hc.1
  · obtain ⟨ds, d, rfl⟩ : ∃ es e, ds = es ++ [e] := ⟨_, _, (List.dropLast_concat_getLast hdne).symm⟩
    simpa [← List.append_assoc] using hd.2

/-! ## Characters on a line -/

/-- The text stays as it is on a line. -/
def Clear (cs : List Char) : Prop := ∀ c ∈ cs, c ∉ ['#', '\t', '\n']

/-- The text is not empty and can be found on a line again. -/
structure Visible (cs : List Char) : Prop where
  ne_nil : cs ≠ []
  solid : Solid cs
  clear : Clear cs

theorem Clear.nil : Clear [] := by simp [Clear]

theorem Clear.space : Clear [' '] := by simp [Clear]

theorem Clear.append {cs ds : List Char} (hc : Clear cs) (hd : Clear ds) : Clear (cs ++ ds) := by
  intro c h
  rcases List.mem_append.1 h with h | h
  · exact hc c h
  · exact hd c h

theorem Clear.cons {c : Char} {cs : List Char} (hc : c ∉ ['#', '\t', '\n']) (hcs : Clear cs) :
    Clear (c :: cs) := by
  intro d h
  rcases List.mem_cons.1 h with rfl | h
  · exact hc
  · exact hcs d h

theorem Visible.between {cs mid ds : List Char} (hc : Visible cs) (hmid : Clear mid) (hd : Visible ds) :
    Visible (cs ++ (mid ++ ds)) where
  ne_nil := by simp [hc.ne_nil]
  solid := hc.solid.between hc.ne_nil hd.solid hd.ne_nil mid
  clear := hc.clear.append (hmid.append hd.clear)

theorem visible_singleton {c : Char} (hblank : isBlank c = false) (hclear : c ∉ ['#', '\t', '\n']) :
    Visible [c] where
  ne_nil := by simp
  solid := by simp [Solid, hblank]
  clear := Clear.cons hclear .nil

/-- The ranges of the blanks beyond ASCII. -/
def wideBlankRanges : List (Nat × Nat) :=
  [(0x85, 0x85), (0xA0, 0xA0), (0x1680, 0x1680), (0x2000, 0x200A), (0x2028, 0x2029), (0x202F, 0x202F),
    (0x205F, 0x205F), (0x3000, 0x3000)]

theorem isBlank_cases {c : Char} (h : isBlank c = true) :
    c.toNat ∈ [0x09, 0x0A, 0x0B, 0x0C, 0x0D, 0x20] ∨
      0x80 ≤ c.toNat ∧ ∃ r ∈ wideBlankRanges, r.1 ≤ c.toNat ∧ c.toNat ≤ r.2 := by
  simp only [isBlank, Bool.or_eq_true, Bool.and_eq_true, decide_eq_true_eq, beq_iff_eq] at h
  simp only [wideBlankRanges, List.mem_cons, List.not_mem_nil, or_false, exists_eq_or_imp, exists_eq_left]
  omega

/-- Whether no code point lies in ranges of both lists. -/
def apart (rs ss : List (Nat × Nat)) : Bool := rs.all fun r => ss.all fun s => r.2.blt s.1 || s.2.blt r.1

theorem inRanges_eq_false_of_apart {rs ss : List (Nat × Nat)} (h : apart rs ss = true) {c : Char}
    (hc : ∃ s ∈ ss, s.1 ≤ c.toNat ∧ c.toNat ≤ s.2) : inRanges rs c = false := by
  obtain ⟨s, hs, hlo, hhi⟩ := hc
  rw [inRanges, List.any_eq_false]
  intro r hr
  have hrs := List.all_eq_true.1 (List.all_eq_true.1 h r hr) s hs
  simp only [Bool.or_eq_true, Nat.blt_eq] at hrs
  simp only [Bool.and_eq_true, decide_eq_true_eq]
  omega

theorem not_blank_of_isNameChar {c : Char} (h : isNameChar c = true) : isBlank c = false := by
  rw [← Bool.not_eq_true]
  intro hblank
  rcases isBlank_cases hblank with hcode | ⟨hwide, hrange⟩
  · have hcodes : ∀ n ∈ [0x09, 0x0A, 0x0B, 0x0C, 0x0D, 0x20], isNameChar (Char.ofNat n) = false := by decide
    have := hcodes _ hcode
    rw [Char.ofNat_toNat, h] at this
    cases this
  · have hletter := inRanges_eq_false_of_apart (by decide +kernel : apart letterRanges wideBlankRanges) hrange
    have hnumeral := inRanges_eq_false_of_apart (by decide +kernel : apart numeralRanges wideBlankRanges) hrange
    have hmark : c ≠ '_' := by
      rintro rfl
      exact absurd hwide (by decide)
    simp [isNameChar, isLetter, isNumeral, hletter, hnumeral, hmark, Nat.not_lt.2 hwide] at h

theorem clear_of_isNameChar {c : Char} (h : isNameChar c = true) : c ∉ ['#', '\t', '\n'] := by
  intro hc
  have hall : ∀ c ∈ ['#', '\t', '\n'], isNameChar c = false := by decide
  rw [hall c hc] at h
  cases h

/-! ## Pieces -/

theorem splitOn_of_forall {p : Char → Bool} {w : List Char} (h : ∀ c ∈ w, p c = false) :
    splitOn p w = [w] := by
  induction w with
  | nil => rfl
  | cons c w ih =>
    rw [splitOn, h c List.mem_cons_self, if_neg (by decide), ih fun d hd => h d (List.mem_cons_of_mem _ hd)]
    rfl

theorem splitOn_ne_nil (p : Char → Bool) (cs : List Char) : splitOn p cs ≠ [] := by
  cases cs with
  | nil => simp [splitOn]
  | cons c cs =>
    rw [splitOn]
    split
    · simp
    · cases splitOn p cs <;> simp [consHead]

/-- A mark cuts the text in two. -/
theorem splitOn_append_cons {p : Char → Bool} {c : Char} (hc : p c = true) (cs rest : List Char) :
    splitOn p (cs ++ c :: rest) = splitOn p cs ++ splitOn p rest := by
  induction cs with
  | nil => simp [splitOn, hc]
  | cons d cs ih =>
    rw [List.cons_append, splitOn, splitOn, ih]
    split
    · rfl
    · obtain ⟨w, ws, hsplit⟩ := List.exists_cons_of_ne_nil (splitOn_ne_nil p cs)
      rw [hsplit]
      rfl

theorem splitOn_append {p : Char → Bool} {w : List Char} (h : ∀ c ∈ w, p c = false) {c : Char}
    (hc : p c = true) (rest : List Char) : splitOn p (w ++ c :: rest) = w :: splitOn p rest := by
  rw [splitOn_append_cons hc, splitOn_of_forall h, List.singleton_append]

theorem splitOn_intercalate {p : Char → Bool} {c : Char} (hc : p c = true) {pieces : List (List Char)}
    (hne : pieces ≠ []) (h : ∀ w ∈ pieces, ∀ d ∈ w, p d = false) :
    splitOn p ([c].intercalate pieces) = pieces := by
  induction pieces with
  | nil => exact absurd rfl hne
  | cons w pieces ih =>
    have hw := h w List.mem_cons_self
    cases pieces with
    | nil => simpa using splitOn_of_forall hw
    | cons v pieces =>
      rw [List.intercalate_cons_cons, List.append_assoc, List.singleton_append, splitOn_append hw hc,
        ih (by simp) fun w hw => h w (List.mem_cons_of_mem _ hw)]

theorem not_of_mem_splitOn {p : Char → Bool} {w cs : List Char} (h : w ∈ splitOn p cs) : ∀ c ∈ w, p c = false := by
  induction cs generalizing w with
  | nil =>
    obtain rfl : w = [] := by simpa [splitOn] using h
    simp
  | cons c cs ih =>
    rw [splitOn] at h
    split at h
    · rcases List.mem_cons.1 h with rfl | h
      · simp
      · exact ih h
    · rename_i hc
      cases hsplit : splitOn p cs with
      | nil => exact absurd hsplit (splitOn_ne_nil p cs)
      | cons v ws =>
        rw [hsplit, consHead] at h
        rw [hsplit] at ih
        rcases List.mem_cons.1 h with rfl | h
        · exact List.forall_mem_cons.2 ⟨by simpa using hc, ih List.mem_cons_self⟩
        · exact ih (List.mem_cons_of_mem _ h)

/-- The pieces are all there is between the marks. -/
theorem intercalate_splitOn (c : Char) (cs : List Char) : [c].intercalate (splitOn (· == c) cs) = cs := by
  induction cs with
  | nil => rfl
  | cons d cs ih =>
    rw [splitOn]
    cases hsplit : splitOn (· == c) cs with
    | nil => exact absurd hsplit (splitOn_ne_nil _ cs)
    | cons w ws =>
      rw [hsplit] at ih
      split
      · rename_i hd
        rw [List.intercalate_cons_cons, ih, eq_of_beq hd]
        rfl
      · cases ws with
        | nil => simpa [consHead] using ih
        | cons v ws => simpa [consHead, List.intercalate_cons_cons] using ih

theorem length_trimStart_le (cs : List Char) : (trimStart cs).length ≤ cs.length :=
  (List.dropWhile_suffix _).length_le

theorem dropPrefix?_eq_some_iff {head cs rest : List Char} :
    dropPrefix? head cs = some rest ↔ cs = head ++ rest := by
  induction head generalizing cs with
  | nil => simp [dropPrefix?, eq_comm]
  | cons h head ih =>
    cases cs with
    | nil => simp [dropPrefix?]
    | cons c cs =>
      rw [dropPrefix?]
      by_cases hc : h = c
      · simp [hc, ih]
      · simp [hc, Ne.symm hc]

end Text

namespace Expr

theorem startsWith_eq_false_iff {p : Char → Bool} {cs : List Char} :
    startsWith p cs = false ↔ ∀ c ∈ cs.head?, p c = false := by
  cases cs <;> simp [startsWith]

/-- A run of characters is taken whole, if what follows does not go on with it. -/
theorem takeWhile_run {p : Char → Bool} {run rest : List Char} (hrun : ∀ c ∈ run, p c = true)
    (hrest : startsWith p rest = false) : (run ++ rest).takeWhile p = run := by
  rw [List.takeWhile_append_of_pos hrun]
  cases rest with
  | nil => simp
  | cons c rest => simp [show p c = false from hrest]

theorem dropWhile_run {p : Char → Bool} {run rest : List Char} (hrun : ∀ c ∈ run, p c = true)
    (hrest : startsWith p rest = false) : (run ++ rest).dropWhile p = rest := by
  rw [List.dropWhile_append_of_pos hrun]
  cases rest with
  | nil => simp
  | cons c rest => simp [show p c = false from hrest]

/-- What follows the longest run does not go on with it. -/
theorem startsWith_dropWhile (p : Char → Bool) (cs : List Char) :
    startsWith p (cs.dropWhile p) = false := by
  rw [startsWith_eq_false_iff]
  intro c hc
  have := List.head?_dropWhile_not p cs
  rw [hc] at this
  simpa using this

end Expr

theorem cutFirst_append {b : Char} {cs : List Char} (h : b ∉ cs) (rest : List Char) :
    cutFirst b (cs ++ b :: rest) = some (cs, rest) := by
  have hrun : ∀ c ∈ cs, (c != b) = true := by
    intro c hc
    rw [bne_iff_ne]
    rintro rfl
    exact h hc
  have hstop : Expr.startsWith (· != b) (b :: rest) = false := by simp [Expr.startsWith]
  rw [cutFirst, Expr.takeWhile_run hrun hstop, Expr.dropWhile_run hrun hstop]

theorem cutFirst_eq_some_iff {b : Char} {cs before after : List Char} :
    cutFirst b cs = some (before, after) ↔ cs = before ++ b :: after ∧ b ∉ before := by
  refine ⟨fun h => ?_, fun ⟨hcs, hb⟩ => hcs ▸ cutFirst_append hb after⟩
  unfold cutFirst at h
  split at h
  · cases h
  · rename_i c rest hrest
    cases h
    obtain rfl : c = b := by
      have hhead := List.head?_dropWhile_not (· != b) cs
      rw [hrest] at hhead
      simpa using hhead
    refine ⟨?_, fun hmem => ?_⟩
    · rw [← hrest, List.takeWhile_append_dropWhile]
    · have := List.all_eq_true.1 List.all_takeWhile c hmem
      simp at this

theorem cutLast_eq_some_iff {b : Char} {cs before after : List Char} :
    cutLast b cs = some (before, after) ↔ cs = before ++ b :: after ∧ b ∉ after := by
  have hreverse : cs = before ++ b :: after ↔ cs.reverse = after.reverse ++ b :: before.reverse := by
    rw [← List.reverse_inj]
    simp
  rw [hreverse, ← List.mem_reverse, ← cutFirst_eq_some_iff, cutLast, Option.map_eq_some_iff]
  constructor
  · rintro ⟨⟨x, y⟩, hcut, heq⟩
    cases heq
    simpa using hcut
  · intro hcut
    exact ⟨_, hcut, by simp⟩

theorem cutFirst_eq_none_iff {b : Char} {cs : List Char} : cutFirst b cs = none ↔ b ∉ cs := by
  constructor
  · intro hnone hmem
    obtain ⟨before, after, rfl, hbefore⟩ := List.eq_append_cons_of_mem hmem
    rw [cutFirst_append hbefore] at hnone
    cases hnone
  · intro hmem
    rw [Option.eq_none_iff_forall_ne_some]
    rintro ⟨before, after⟩ hsome
    obtain ⟨rfl, -⟩ := cutFirst_eq_some_iff.1 hsome
    simp at hmem

theorem cutLast_eq_none_iff {b : Char} {cs : List Char} : cutLast b cs = none ↔ b ∉ cs := by
  rw [cutLast, Option.map_eq_none_iff, cutFirst_eq_none_iff, List.mem_reverse]

theorem cutLast_concat (b : Char) (cs : List Char) : cutLast b (cs ++ [b]) = some (cs, []) :=
  cutLast_eq_some_iff.2 ⟨rfl, by simp⟩

end SceneScript
