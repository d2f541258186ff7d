import SceneScript.Proofs.Collect
import SceneScript.Proofs.Split.Balance

/-!
# Splitting arguments

A list of arguments is cut at the commas outside quotes and brackets.  The segments between them are the only way to
write the text as balanced texts without such a comma, with commas between them; a text that is not balanced is refused,
and the fault tells why.

    IsSegmentation sym cs segs → segments sym false 0 cs = .ok segs  (segments_of_isSegmentation)
    Balanced sym cs → ∃ segs, IsSegmentation sym cs segs             (exists_isSegmentation)
    splitArguments sym text                                          (splitArguments_spec)
-/

namespace SceneScript

/-- The text is whole in the sense of `P` and is not cut: no comma in it stands behind a beginning that is whole. -/
structure Uncut (P : List Char → Prop) (comma : Char) (cs : List Char) : Prop where
  whole : P cs
  no_comma : ∀ before after, cs = before ++ comma :: after → ¬ P before

/-- The text is balanced texts with commas between them, none of which has a comma outside quotes and brackets. -/
structure IsSegmentation (sym : Symbols) (cs : List Char) (segs : List (List Char)) : Prop where
  joined : [sym.comma].intercalate segs = cs
  uncut : ∀ seg ∈ segs, Uncut (Balanced sym) sym.comma seg

theorem intercalate_append (c : Char) {ws vs : List (List Char)} (hws : ws ≠ []) (hvs : vs ≠ []) :
    [c].intercalate (ws ++ vs) = [c].intercalate ws ++ c :: [c].intercalate vs := by
  induction ws with
  | nil => exact absurd rfl hws
  | cons w ws ih =>
    cases ws with
    | nil =>
      obtain ⟨v, vs, rfl⟩ := List.exists_cons_of_ne_nil hvs
      simp [List.intercalate_cons_cons]
    | cons u us =>
      have hrest := ih (by simp)
      rw [List.cons_append] at hrest
      rw [List.cons_append, List.cons_append, List.intercalate_cons_cons, hrest, List.intercalate_cons_cons]
      simp

/-- Blanks at the ends do not matter, if a text is whole without them. -/
theorem Uncut.trim {P : List Char → Prop} (hstart : ∀ {as cs}, Text.AllBlank as → (P (as ++ cs) ↔ P cs))
    (hend : ∀ {cs bs}, Text.AllBlank bs → P (cs ++ bs) → P cs) {comma : Char} {seg : List Char}
    (h : Uncut P comma seg) : Uncut P comma (Text.trim seg) := by
  obtain ⟨as, bs, has, hbs, hseg⟩ := Text.exists_trim seg
  rw [hseg] at h
  refine ⟨hend hbs ((hstart has).1 h.whole), fun before after hcut hbefore => ?_⟩
  refine h.no_comma (as ++ before) (after ++ bs) ?_ ((hstart has).2 hbefore)
  rw [hcut]
  simp

/-- A whole text can be cut, if what follows a comma behind a whole beginning is whole again. -/
theorem exists_uncut (P : List Char → Prop) (comma : Char)
    (hrest : ∀ before after, P before → P (before ++ comma :: after) → P after) {cs : List Char} (h : P cs) :
    ∃ segs, segs ≠ [] ∧ [comma].intercalate segs = cs ∧ ∀ seg ∈ segs, Uncut P comma seg := by
  induction hn : cs.length using Nat.strongRecOn generalizing cs with
  | ind n ih =>
    by_cases hcut : ∃ before after, cs = before ++ comma :: after ∧ P before
    · -- both sides of the comma are shorter
      obtain ⟨before, after, rfl, hbefore⟩ := hcut
      rw [List.length_append, List.length_cons] at hn
      obtain ⟨ws, hws, hjoined, hall⟩ := ih before.length (by omega) hbefore rfl
      obtain ⟨vs, hvs, hjoined', hall'⟩ := ih after.length (by omega) (hrest before after hbefore h) rfl
      refine ⟨ws ++ vs, by simp [hws], ?_, ?_⟩
      · rw [intercalate_append comma hws hvs, hjoined, hjoined']
      · intro seg hseg
        rcases List.mem_append.1 hseg with hseg | hseg
        · exact hall seg hseg
        · exact hall' seg hseg
    · refine ⟨[cs], by simp, List.intercalate_singleton, ?_⟩
      intro seg hseg
      obtain rfl := List.mem_singleton.1 hseg
      exact ⟨h, fun before after hseg hbefore => hcut ⟨before, after, hseg, hbefore⟩⟩

/-- Characters put in front of the first piece, one after the other. -/
theorem foldr_consHead (w v : List Char) (vs : List (List Char)) :
    w.foldr Text.consHead (v :: vs) = (w ++ v) :: vs := by
  induction w with
  | nil => rfl
  | cons c w ih =>
    rw [List.foldr_cons, ih]
    rfl

section

variable {sym : Symbols}

/-! ## Steps -/

theorem segments_cons (sym : Symbols) (depth : Nat) (c : Char) (rest : List Char) :
    segments sym false depth (c :: rest) =
      if c = sym.openQuote then (segments sym true depth rest).map (Text.consHead c)
      else if c = sym.openBracket then (segments sym false (depth + 1) rest).map (Text.consHead c)
      else if c = sym.closeBracket then
        if depth = 0 then .error .unbalanced else (segments sym false (depth - 1) rest).map (Text.consHead c)
      else if c = sym.comma ∧ depth = 0 then (segments sym false 0 rest).map ([] :: ·)
      else (segments sym false depth rest).map (Text.consHead c) := by
  cases depth <;> rfl

/-- Within a quote the splitter goes to the closing quote. -/
theorem segments_quote {quote : List Char} (h : sym.closeQuote ∉ quote) (depth : Nat) (rest : List Char) :
    segments sym true depth (quote ++ sym.closeQuote :: rest) =
      (segments sym false depth rest).map ((quote ++ [sym.closeQuote]).foldr Text.consHead ·) := by
  induction quote with
  | nil => rw [List.nil_append, segments, bne_self_eq_false, List.nil_append]; rfl
  | cons c quote ih =>
    rw [List.mem_cons, not_or] at h
    rw [List.cons_append, segments, bne_iff_ne.2 (Ne.symm h.1), ih h.2, map_map_eq]
    rfl

/-- A quote that is not closed is a fault. -/
theorem segments_open_quote {quote : List Char} (h : sym.closeQuote ∉ quote) (depth : Nat) :
    segments sym true depth quote = .error .unterminated := by
  induction quote with
  | nil => rw [segments]
  | cons c quote ih =>
    rw [List.mem_cons, not_or] at h
    rw [segments, bne_iff_ne.2 (Ne.symm h.1), ih h.2]
    rfl

/-- A bracket that closes nothing is a fault. -/
theorem segments_cons_of_none {c : Char} {depth : Nat} (hc : c ≠ sym.openQuote) (h : depthAfter sym depth [c] = none)
    (rest : List Char) : segments sym false depth (c :: rest) = .error .unbalanced := by
  simp only [depthAfter] at h
  rw [segments_cons, if_neg hc]
  split at h
  · cases h
  · rename_i hopen
    rw [if_neg hopen]
    split at h
    · rename_i hclose
      rw [if_pos hclose]
      split at h
      · rename_i hdepth
        rw [if_pos hdepth]
      · cases h
    · cases h

/-- Any other character outside quotes brings the splitter to the next depth.  It belongs to the segment it stands in,
unless it is a comma outside brackets. -/
theorem segments_cons_of_some {c : Char} {depth next : Nat} (hc : c ≠ sym.openQuote)
    (h : depthAfter sym depth [c] = some next) :
    ∃ f, (∀ rest, segments sym false depth (c :: rest) = (segments sym false next rest).map f) ∧
      ((c = sym.comma → depth ≠ 0) → f = Text.consHead c) := by
  by_cases hopen : c = sym.openBracket
  · subst hopen
    obtain rfl : depth + 1 = next := by simpa [depthAfter] using h
    exact ⟨_, fun rest => by rw [segments_cons, if_neg hc, if_pos rfl], fun _ => rfl⟩
  by_cases hclose : c = sym.closeBracket
  · subst hclose
    rw [depthAfter, if_neg hopen, if_pos rfl] at h
    split at h
    · cases h
    · rename_i hdepth
      obtain rfl : depth - 1 = next := by simpa [depthAfter] using h
      refine ⟨_, fun rest => ?_, fun _ => rfl⟩
      rw [segments_cons, if_neg hc, if_neg hopen, if_pos rfl, if_neg hdepth]
  obtain rfl : depth = next := by
    rw [depthAfter_plain hopen hclose] at h
    simpa [depthAfter] using h
  by_cases hcomma : c = sym.comma ∧ depth = 0
  · obtain ⟨rfl, rfl⟩ := hcomma
    refine ⟨([] :: ·), fun rest => ?_, fun hne => absurd rfl (hne rfl)⟩
    rw [segments_cons, if_neg hc, if_neg hopen, if_neg hclose, if_pos ⟨rfl, rfl⟩]
  · refine ⟨_, fun rest => ?_, fun _ => rfl⟩
    rw [segments_cons, if_neg hc, if_neg hopen, if_neg hclose, if_neg hcomma]

/-! ## Whole texts -/

/-- What stands before a bracket that closes nothing may be anything. -/
theorem segments_of_depth_none {cs out : List Char} (h : Outside sym cs out) {depth : Nat}
    (hdepth : depthAfter sym depth out = none) (rest : List Char) :
    segments sym false depth (cs ++ rest) = .error .unbalanced := by
  induction h generalizing depth with
  | nil => cases hdepth
  | @plain c cs out hc _ ih =>
    rw [← List.singleton_append, depthAfter_append] at hdepth
    cases hnext : depthAfter sym depth [c] with
    | none => exact segments_cons_of_none hc hnext _
    | some next =>
      rw [hnext, Option.bind_some] at hdepth
      obtain ⟨f, hf, -⟩ := segments_cons_of_some hc hnext
      rw [List.cons_append, hf, ih hdepth]
      rfl
  | quoted hquote _ ih =>
    rw [List.cons_append, List.append_assoc, List.cons_append, segments_cons, if_pos rfl, segments_quote hquote,
      ih hdepth]
    rfl

/-- A text with closed quotes brings the splitter to the depth it ends with.  Without a comma outside brackets it
goes to one segment. -/
theorem segments_of_depth_some {cs out : List Char} (h : Outside sym cs out) {depth left : Nat}
    (hdepth : depthAfter sym depth out = some left) :
    ∃ f, (∀ rest, segments sym false depth (cs ++ rest) = (segments sym false left rest).map f) ∧
      ((∀ before after o, cs = before ++ sym.comma :: after → Outside sym before o →
        depthAfter sym depth o ≠ some 0) → f = (cs.foldr Text.consHead ·)) := by
  induction h generalizing depth with
  | nil =>
    obtain rfl : depth = left := by simpa [depthAfter] using hdepth
    refine ⟨id, fun rest => ?_, fun _ => rfl⟩
    rw [List.nil_append]
    cases segments sym false depth rest <;> rfl
  | @plain c cs out hc _ ih =>
    rw [← List.singleton_append, depthAfter_append] at hdepth
    obtain ⟨next, hnext, hdepth⟩ := Option.bind_eq_some_iff.1 hdepth
    obtain ⟨f, hf, hhead⟩ := segments_cons_of_some hc hnext
    obtain ⟨g, hg, htail⟩ := ih hdepth
    refine ⟨fun ws => f (g ws), fun rest => ?_, fun hcomma => ?_⟩
    · rw [List.cons_append, hf, hg, map_map_eq]
    · have hf' : f = Text.consHead c := by
        refine hhead ?_
        rintro rfl rfl
        exact hcomma [] cs [] rfl .nil rfl
      have hg' : g = (cs.foldr Text.consHead ·) := by
        refine htail ?_
        rintro before after o rfl ho hzero
        refine hcomma (c :: before) after (c :: o) rfl (.plain hc ho) ?_
        rw [← List.singleton_append, depthAfter_append, hnext, Option.bind_some, hzero]
      rw [hf', hg']
      rfl
  | @quoted quote cs out hquote _ ih =>
    obtain ⟨g, hg, htail⟩ := ih hdepth
    refine ⟨fun ws => Text.consHead sym.openQuote ((quote ++ [sym.closeQuote]).foldr Text.consHead (g ws)),
      fun rest => ?_, fun hcomma => ?_⟩
    · rw [List.cons_append, List.append_assoc, List.cons_append, segments_cons, if_pos rfl, segments_quote hquote,
        hg, map_map_eq, map_map_eq]
    · have hg' : g = (cs.foldr Text.consHead ·) := by
        refine htail ?_
        rintro before after o rfl ho hzero
        refine hcomma (sym.openQuote :: (quote ++ sym.closeQuote :: before)) after o ?_ (.quoted hquote ho) hzero
        simp
      rw [hg']
      funext ws
      simp only [List.foldr_cons, List.foldr_append, List.foldr_nil]

theorem segments_of_overclosed (hsym : sym.Separate) {cs : List Char} (h : Overclosed sym cs) :
    segments sym false 0 cs = .error .unbalanced := by
  obtain ⟨before, after, out, rfl, hout, hdepth⟩ := (overclosed_iff hsym.openBracket_ne.1).1 h
  exact segments_of_depth_none hout hdepth after

theorem segments_of_leftOpen (hsym : sym.Separate) {cs : List Char} (h : LeftOpen sym cs) :
    segments sym false 0 cs = .error .unbalanced := by
  obtain ⟨out, hout, hlt⟩ := h
  rw [← List.append_nil cs]
  cases hdepth : depthAfter sym 0 out with
  | none => exact segments_of_depth_none hout hdepth []
  | some left =>
    obtain ⟨f, hf, -⟩ := segments_of_depth_some hout hdepth
    rw [hf]
    cases left with
    | zero =>
      have := ((depthAfter_eq_some_iff hsym.openBracket_ne.1).1 hdepth).2
      omega
    | succ left => rfl

/-- An open quote is the fault only if no bracket before it is. -/
theorem segments_of_not_quotesClosed (hsym : sym.Separate) {cs : List Char} (h : ¬ QuotesClosed sym cs)
    (hover : ¬ Overclosed sym cs) : segments sym false 0 cs = .error .unterminated := by
  rcases quotesClosed_or_open sym cs with hclosed | ⟨before, out, quote, rfl, hout, hquote⟩
  · exact absurd hclosed h
  cases hdepth : depthAfter sym 0 out with
  | none => exact absurd ((overclosed_iff hsym.openBracket_ne.1).2 ⟨before, _, out, rfl, hout, hdepth⟩) hover
  | some left =>
    obtain ⟨f, hf, -⟩ := segments_of_depth_some hout hdepth
    rw [hf, segments_cons, if_pos rfl, segments_open_quote hquote]
    rfl

/-! ## Segments -/

theorem Uncut.segments_append (hsym : sym.Separate) {seg : List Char} (h : Uncut (Balanced sym) sym.comma seg)
    (rest : List Char) :
    segments sym false 0 (seg ++ rest) = (segments sym false 0 rest).map (seg.foldr Text.consHead ·) := by
  obtain ⟨out, hout, hdepth⟩ := (balanced_iff hsym.openBracket_ne.1).1 h.whole
  obtain ⟨f, hf, hone⟩ := segments_of_depth_some hout hdepth
  have hno : ∀ before after o, seg = before ++ sym.comma :: after → Outside sym before o →
      depthAfter sym 0 o ≠ some 0 := by
    intro before after o hseg ho hzero
    exact h.no_comma before after hseg ((balanced_iff hsym.openBracket_ne.1).2 ⟨o, ho, hzero⟩)
  rw [hf, hone hno]

theorem segments_comma (hsym : sym.Separate) (rest : List Char) :
    segments sym false 0 (sym.comma :: rest) = (segments sym false 0 rest).map ([] :: ·) := by
  obtain ⟨hopen, hclose, hquote⟩ := hsym.comma_ne
  rw [segments_cons, if_neg hquote, if_neg hopen, if_neg hclose, if_pos ⟨rfl, rfl⟩]

/-- A text that is cut into segments is cut so by the splitter. -/
theorem segments_of_isSegmentation (hsym : sym.Separate) {segs : List (List Char)} (hne : segs ≠ []) {cs : List Char}
    (h : IsSegmentation sym cs segs) : segments sym false 0 cs = .ok segs := by
  induction segs generalizing cs with
  | nil => exact absurd rfl hne
  | cons seg segs ih =>
    have hseg := h.uncut seg List.mem_cons_self
    rw [← h.joined]
    cases segs with
    | nil =>
      rw [List.intercalate_singleton, ← List.append_nil seg, hseg.segments_append hsym]
      simp [segments, Except.map, foldr_consHead]
    | cons next segs =>
      have hrest := ih (by simp) ⟨rfl, fun s hs => h.uncut s (List.mem_cons_of_mem _ hs)⟩
      rw [List.intercalate_cons_cons, List.append_assoc, List.singleton_append, hseg.segments_append hsym,
        segments_comma hsym, hrest]
      simp [Except.map, foldr_consHead]

/-- A balanced text can be cut into segments. -/
theorem exists_isSegmentation (hsym : sym.Separate) {cs : List Char} (h : Balanced sym cs) :
    ∃ segs, segs ≠ [] ∧ IsSegmentation sym cs segs := by
  have hne := hsym.openBracket_ne.1
  have hcomma : Balanced sym [sym.comma] := by
    refine (balanced_iff hne).2 ⟨_, .plain hsym.comma_ne.2.2 .nil, depthAfter_of_forall ?_ 0⟩
    intro c hc
    obtain rfl := List.mem_singleton.1 hc
    exact ⟨hsym.comma_ne.1, hsym.comma_ne.2.1⟩
  have hrest : ∀ before after, Balanced sym before → Balanced sym (before ++ sym.comma :: after) →
      Balanced sym after := by
    intro before after hbefore hall
    have hafter := hbefore.of_append hne hall
    rw [← List.singleton_append] at hafter
    exact hcomma.of_append hne hafter
  obtain ⟨segs, hsegs, hjoined, huncut⟩ := exists_uncut _ _ hrest h
  exact ⟨segs, hsegs, hjoined, huncut⟩

/-! ## Arguments -/

theorem splitArguments_of_blank {text : String} (h : Text.trim text.toList = []) :
    splitArguments sym text = .ok [] := by
  simp [splitArguments, h]

theorem splitArguments_of_error {text : String} {fault : SplitFault}
    (h : segments sym false 0 (Text.trim text.toList) = .error fault) :
    splitArguments sym text = .error (fault.inText (Text.trim text.toList)) := by
  have hne : Text.trim text.toList ≠ [] := by
    intro hnil
    rw [hnil, segments] at h
    cases h
  simp [splitArguments, hne, h]

theorem IsSegmentation.ne_nil {cs : List Char} {segs : List (List Char)} (h : IsSegmentation sym cs segs)
    (hne : cs ≠ []) : segs ≠ [] := by
  rintro rfl
  exact hne h.joined.symm

theorem IsSegmentation.unique (hsym : sym.Separate) {cs : List Char} {segs other : List (List Char)}
    (h : IsSegmentation sym cs segs) (hne : cs ≠ []) (hother : IsSegmentation sym cs other) : other = segs := by
  have hsplit := segments_of_isSegmentation hsym (hother.ne_nil hne) hother
  rw [segments_of_isSegmentation hsym (h.ne_nil hne) h] at hsplit
  exact (Except.ok.inj hsplit).symm

theorem splitArguments_of_isSegmentation (hsym : sym.Separate) {text : String} (hne : Text.trim text.toList ≠ [])
    {segs : List (List Char)} (h : IsSegmentation sym (Text.trim text.toList) segs) :
    splitArguments sym text = .ok (segs.map fun seg => String.ofList (Text.trim seg)) := by
  simp [splitArguments, hne, segments_of_isSegmentation hsym (h.ne_nil hne) h]

/-- What the splitter makes of a text: nothing of blanks, the segments of a balanced text, and a fault of any other. -/
theorem splitArguments_cases (hsym : sym.Separate) (text : String) :
    (Text.trim text.toList = [] ∧ splitArguments sym text = .ok []) ∨
    (Text.trim text.toList ≠ [] ∧ Balanced sym (Text.trim text.toList) ∧
      ∃ segs, IsSegmentation sym (Text.trim text.toList) segs ∧
        splitArguments sym text = .ok (segs.map fun seg => String.ofList (Text.trim seg))) ∨
    ((Overclosed sym (Text.trim text.toList) ∨ LeftOpen sym (Text.trim text.toList)) ∧
      splitArguments sym text = .error (.unbalancedBracket (String.ofList (Text.trim text.toList)))) ∨
    (¬ QuotesClosed sym (Text.trim text.toList) ∧ ¬ Overclosed sym (Text.trim text.toList) ∧
      splitArguments sym text = .error (.unterminatedQuote (String.ofList (Text.trim text.toList)))) := by
  by_cases hover : Overclosed sym (Text.trim text.toList)
  · exact .inr (.inr (.inl ⟨.inl hover, splitArguments_of_error (segments_of_overclosed hsym hover)⟩))
  rcases balanced_cases hsym.openBracket_ne.1 (Text.trim text.toList) with h | h | h | h
  · by_cases hne : Text.trim text.toList = []
    · exact .inl ⟨hne, splitArguments_of_blank hne⟩
    · obtain ⟨segs, -, hsegs⟩ := exists_isSegmentation hsym h
      exact .inr (.inl ⟨hne, h, segs, hsegs, splitArguments_of_isSegmentation hsym hne hsegs⟩)
  · exact absurd h hover
  · exact .inr (.inr (.inl ⟨.inr h, splitArguments_of_error (segments_of_leftOpen hsym h)⟩))
  · exact .inr (.inr (.inr ⟨h, hover, splitArguments_of_error (segments_of_not_quotesClosed hsym h hover)⟩))

theorem exists_splitArguments_iff (hsym : sym.Separate) (text : String) :
    (∃ parts, splitArguments sym text = .ok parts) ↔ Balanced sym (Text.trim text.toList) := by
  rcases splitArguments_cases hsym text with ⟨hnil, hsplit⟩ | ⟨-, hbalanced, segs, -, hsplit⟩ |
      ⟨hfault, hsplit⟩ | ⟨hquote, -, hsplit⟩
  · rw [hnil]
    exact ⟨fun _ => balanced_of_blank hsym Text.AllBlank.nil, fun _ => ⟨_, hsplit⟩⟩
  · exact ⟨fun _ => hbalanced, fun _ => ⟨_, hsplit⟩⟩
  · simp only [hsplit, reduceCtorEq, exists_false, false_iff]
    exact fun h => h.not_faulty hsym.openBracket_ne.1 hfault
  · simp only [hsplit, reduceCtorEq, exists_false, false_iff]
    exact fun ⟨out, hout, _⟩ => hquote ⟨out, hout⟩

theorem splitArguments_eq_unbalanced_iff (hsym : sym.Separate) (text : String) :
    splitArguments sym text = .error (.unbalancedBracket (String.ofList (Text.trim text.toList))) ↔
      Overclosed sym (Text.trim text.toList) ∨ LeftOpen sym (Text.trim text.toList) := by
  have hok := exists_splitArguments_iff hsym text
  rcases splitArguments_cases hsym text with ⟨-, hsplit⟩ | ⟨-, -, segs, -, hsplit⟩ |
      ⟨hfault, hsplit⟩ | ⟨hquote, hover, hsplit⟩
  · have hbalanced := hok.1 ⟨_, hsplit⟩
    simp [hsplit, hbalanced.not_faulty hsym.openBracket_ne.1]
  · have hbalanced := hok.1 ⟨_, hsplit⟩
    simp [hsplit, hbalanced.not_faulty hsym.openBracket_ne.1]
  · exact ⟨fun _ => hfault, fun _ => hsplit⟩
  · simp only [hsplit, Except.error.injEq, reduceCtorEq, hover, false_or, false_iff]
    exact fun ⟨out, hout, _⟩ => hquote ⟨out, hout⟩

theorem splitArguments_eq_unterminated_iff (hsym : sym.Separate) (text : String) :
    splitArguments sym text = .error (.unterminatedQuote (String.ofList (Text.trim text.toList))) ↔
      ¬ Balanced sym (Text.trim text.toList) ∧
        ¬ (Overclosed sym (Text.trim text.toList) ∨ LeftOpen sym (Text.trim text.toList)) := by
  rw [← exists_splitArguments_iff hsym, ← splitArguments_eq_unbalanced_iff hsym]
  rcases splitArguments_cases hsym text with ⟨-, hsplit⟩ | ⟨-, -, segs, -, hsplit⟩ |
      ⟨-, hsplit⟩ | ⟨-, -, hsplit⟩ <;> simp [hsplit]

/-! ## Joined arguments -/

theorem solid_intercalate {c : Char} (hc : Text.isBlank c = false) {ws : List (List Char)}
    (h : ∀ w ∈ ws, Text.Solid w) : Text.Solid ([c].intercalate ws) := by
  have hcomma : Text.Solid [c] := by simp [Text.Solid, hc]
  induction ws with
  | nil => exact Text.solid_nil
  | cons w ws ih =>
    have hw := h w List.mem_cons_self
    cases ws with
    | nil => simpa using hw
    | cons v vs =>
      have hrest := ih fun u hu => h u (List.mem_cons_of_mem _ hu)
      rw [List.intercalate_cons_cons]
      exact (hw.append hcomma).append hrest

theorem intercalate_trim_ne_nil {c : Char} {cs : List Char} (hne : Text.trim cs ≠ []) {ws : List (List Char)}
    (h : [c].intercalate ws = Text.trim cs) : [c].intercalate (ws.map Text.trim) ≠ [] := by
  cases ws with
  | nil => exact absurd h.symm hne
  | cons w ws =>
    cases ws with
    | nil =>
      rw [List.intercalate_singleton] at h
      rw [List.map_singleton, List.intercalate_singleton, h, (Text.solid_trim cs).trim_eq]
      exact hne
    | cons v vs => simp [List.intercalate_cons_cons]

/-- Arguments as one text, with commas between them. -/
def joinedArguments (sym : Symbols) (parts : List String) : String :=
  String.ofList ([sym.comma].intercalate (parts.map String.toList))

/-- Trimmed segments are the segments of the text that they are joined to. -/
theorem splitArguments_joined (hsym : sym.Separate) {cs : List Char} (hne : Text.trim cs ≠ [])
    {segs : List (List Char)} (h : IsSegmentation sym (Text.trim cs) segs) :
    splitArguments sym (joinedArguments sym (segs.map fun seg => String.ofList (Text.trim seg))) =
      .ok (segs.map fun seg => String.ofList (Text.trim seg)) := by
  have hparts : (segs.map fun seg => String.ofList (Text.trim seg)).map String.toList = segs.map Text.trim := by
    simp
  have hsolid : Text.Solid ([sym.comma].intercalate (segs.map Text.trim)) := by
    refine solid_intercalate (hsym.not_blank _ (by simp)) fun w hw => ?_
    obtain ⟨seg, -, rfl⟩ := List.mem_map.1 hw
    exact Text.solid_trim seg
  have htrim : Text.trim (joinedArguments sym (segs.map fun seg => String.ofList (Text.trim seg))).toList =
      [sym.comma].intercalate (segs.map Text.trim) := by
    rw [joinedArguments, String.toList_ofList, hparts, hsolid.trim_eq]
  have hjoined := intercalate_trim_ne_nil hne h.joined
  have hsegs : IsSegmentation sym ([sym.comma].intercalate (segs.map Text.trim)) (segs.map Text.trim) := by
    refine ⟨rfl, fun w hw => ?_⟩
    obtain ⟨seg, hseg, rfl⟩ := List.mem_map.1 hw
    exact (h.uncut seg hseg).trim (balanced_blanks_append_iff hsym) (Balanced.of_append_blanks hsym)
  rw [← htrim] at hjoined hsegs
  rw [splitArguments_of_isSegmentation hsym hjoined hsegs, List.map_map]
  congr 1
  refine List.map_congr_left fun seg _ => ?_
  simp [(Text.solid_trim seg).trim_eq]

/-- **Arguments are cut at exactly the commas outside quotes and brackets.**  A text has arguments if it is
balanced.  They are the segments of the text, without blanks at their ends, and no other cut gives segments.  If the
text is not balanced, the fault is in the brackets if some beginning closes too many or if one is left open while
all quotes are closed, and in the quotes otherwise.  Arguments that are joined again are cut again in the same way.
-/
theorem splitArguments_spec (hsym : sym.Separate) (text : String) :
    let cs := Text.trim text.toList
    ((∃ parts, splitArguments sym text = .ok parts) ↔ Balanced sym cs) ∧
    (∀ parts, splitArguments sym text = .ok parts →
      (cs = [] ∧ parts = []) ∨
      cs ≠ [] ∧ ∃ segs, IsSegmentation sym cs segs ∧ (∀ other, IsSegmentation sym cs other → other = segs) ∧
        parts = segs.map fun seg => String.ofList (Text.trim seg)) ∧
    (splitArguments sym text = .error (.unbalancedBracket (String.ofList cs)) ↔
      Overclosed sym cs ∨ LeftOpen sym cs) ∧
    (splitArguments sym text = .error (.unterminatedQuote (String.ofList cs)) ↔
      ¬ Balanced sym cs ∧ ¬ (Overclosed sym cs ∨ LeftOpen sym cs)) ∧
    ∀ parts, splitArguments sym text = .ok parts → splitArguments sym (joinedArguments sym parts) = .ok parts := by
  intro cs
  refine ⟨exists_splitArguments_iff hsym text, ?_, splitArguments_eq_unbalanced_iff hsym text,
    splitArguments_eq_unterminated_iff hsym text, ?_⟩
  · intro parts hparts
    rcases splitArguments_cases hsym text with ⟨hnil, hsplit⟩ | ⟨hcs, -, segs, hsegs, hsplit⟩ |
        ⟨-, hsplit⟩ | ⟨-, -, hsplit⟩ <;> rw [hsplit] at hparts <;> cases hparts
    · exact .inl ⟨hnil, rfl⟩
    · refine .inr ⟨hcs, segs, hsegs, fun other hother => ?_, rfl⟩
      exact hsegs.unique hsym hcs hother
  · intro parts hparts
    rcases splitArguments_cases hsym text with ⟨hnil, hsplit⟩ | ⟨hcs, -, segs, hsegs, hsplit⟩ |
        ⟨-, hsplit⟩ | ⟨-, -, hsplit⟩ <;> rw [hsplit] at hparts <;> cases hparts
    · rfl
    · exact splitArguments_joined hsym hcs hsegs

/-- Symbols whose closing quote is the comma, which then does not cut where it ends a quote. -/
def commaQuotes : Symbols := { Symbols.english with closeQuote := ',' }

theorem splitArguments_commaQuotes :
    commaQuotes.Separate ∧ Balanced commaQuotes (Text.trim " \"(, b, (c, \")\", d), e".toList) ∧
      ∃ segs, IsSegmentation commaQuotes (Text.trim " \"(, b, (c, \")\", d), e".toList) segs ∧
        ["\"(, b", "(c, \")\", d)", "e"] = segs.map fun seg => String.ofList (Text.trim seg) := by
  have hsym : commaQuotes.Separate := ⟨by decide, by decide⟩
  obtain ⟨hok, hcut, -⟩ := splitArguments_spec hsym " \"(, b, (c, \")\", d), e"
  refine ⟨hsym, hok.1 ⟨_, rfl⟩, ?_⟩
  rcases hcut ["\"(, b", "(c, \")\", d)", "e"] rfl with ⟨-, hparts⟩ | ⟨-, segs, hsegs, -, hparts⟩
  · cases hparts
  · exact ⟨segs, hsegs, hparts⟩

end

end SceneScript
