import SceneScript.Proofs.Render.Call
import SceneScript.Proofs.Split.Segments

/-!
# Reading pieces

The reader of a call knows quotes and commas but no brackets, so to it a list of arguments is pieces with commas
between them, where a piece has no comma outside quotes.  A piece is a word or one quote; if anything stands beside
a quote in it, the piece is crowded and the whole list is refused.

    IsPiece sym p → Crowded sym (trim p), or p is read as one value  (readArguments_piece)
    all pieces of a text with closed quotes                          (readArguments_pieces)
    a text with an open quote is never read                          (readArguments_of_not_quotesClosed)
-/

namespace SceneScript

theorem Symbols.InUse.separate {sym : Symbols} (h : sym.InUse) : sym.Separate := by
  rcases h with rfl | rfl <;> exact ⟨by decide, by decide⟩

/-- Every quote of the text is closed, and no comma stands outside quotes. -/
def IsPiece (sym : Symbols) (cs : List Char) : Prop := Uncut (QuotesClosed sym) sym.comma cs

/-- The text has a quote and something else beside it. -/
def Crowded (sym : Symbols) (cs : List Char) : Prop :=
  ∃ before quote after, cs = before ++ sym.openQuote :: (quote ++ sym.closeQuote :: after) ∧
    QuotesClosed sym before ∧ sym.closeQuote ∉ quote ∧ ¬ (Text.AllBlank before ∧ Text.AllBlank after)

/-- The value of an argument as it is written: the text of its quote if it starts with one, else what the word stands
for. -/
def Value.ofPart (sym : Symbols) (part : String) : Value :=
  if part.toList.head? = some sym.openQuote then
    .text (String.ofList (part.toList.tail.takeWhile (· != sym.closeQuote)))
  else .ofWord part

/-- The arguments without the last one, if that is empty. -/
def withoutLastEmpty (parts : List String) : List String :=
  if parts.getLast? = some "" then parts.dropLast else parts

theorem withoutLastEmpty_singleton (part : String) :
    withoutLastEmpty [part] = if part = "" then [] else [part] := by
  simp [withoutLastEmpty]

theorem withoutLastEmpty_cons_cons (part next : String) (parts : List String) :
    withoutLastEmpty (part :: next :: parts) = part :: withoutLastEmpty (next :: parts) := by
  unfold withoutLastEmpty
  rw [List.getLast?_cons_cons, List.dropLast_cons_cons]
  split <;> rfl

section

variable {sym : Symbols}

/-! ## One piece -/

theorem IsPiece.trim (hsym : sym.Separate) {p : List Char} (h : IsPiece sym p) : IsPiece sym (Text.trim p) :=
  Uncut.trim (quotesClosed_blanks_append_iff hsym) (QuotesClosed.of_append_blanks hsym) h

/-- A comma of a piece stands behind an opening quote. -/
theorem IsPiece.comma_not_mem {as bs : List Char} (h : IsPiece sym (as ++ bs)) (hquote : sym.openQuote ∉ as) :
    sym.comma ∉ as := by
  intro hmem
  obtain ⟨before, after, rfl⟩ := List.append_of_mem hmem
  have hbefore : QuotesClosed sym before := by
    refine quotesClosed_of_not_mem fun hopen => hquote ?_
    simp [hopen]
  exact h.no_comma before (after ++ bs) (by simp) hbefore

/-- A piece has no quote, or it has a first one. -/
theorem IsPiece.first_quote {q : List Char} (h : IsPiece sym q) :
    (sym.openQuote ∉ q ∧ sym.comma ∉ q) ∨
      ∃ before quote after, q = before ++ sym.openQuote :: (quote ++ sym.closeQuote :: after) ∧
        sym.openQuote ∉ before ∧ sym.comma ∉ before ∧ sym.closeQuote ∉ quote := by
  by_cases hmem : sym.openQuote ∈ q
  · obtain ⟨before, rest, rfl, hbefore⟩ := List.eq_append_cons_of_mem hmem
    obtain ⟨out, hout⟩ := (quotesClosed_of_not_mem hbefore).of_append h.whole
    obtain ⟨quote, after, rfl, hquote, -⟩ := hout.of_quote
    exact .inr ⟨before, quote, after, rfl, hbefore, h.comma_not_mem hbefore, hquote⟩
  · rw [← List.append_nil q] at h
    exact .inl ⟨hmem, h.comma_not_mem hmem⟩

/-- A quote with nothing beside it is not crowded. -/
theorem not_crowded_quote {quote : List Char} (h : sym.closeQuote ∉ quote) :
    ¬ Crowded sym (sym.openQuote :: (quote ++ [sym.closeQuote])) := by
  rintro ⟨before, other, after, htext, ⟨out, hbefore⟩, hother, hbeside⟩
  cases before with
  | nil =>
    obtain ⟨-, rfl⟩ := append_cons_inj (List.cons.inj htext).2 h hother
    exact hbeside ⟨Text.AllBlank.nil, Text.AllBlank.nil⟩
  | cons c before =>
    -- the only quote of the text would end before the other one starts
    rw [List.cons_append] at htext
    obtain ⟨rfl, hrest⟩ := List.cons.inj htext
    obtain ⟨first, rest, rfl, hfirst, -⟩ := hbefore.of_quote
    rw [List.append_assoc, List.cons_append] at hrest
    have hnil := (append_cons_inj hrest h hfirst).2
    simp at hnil

theorem crowded_of_before {before quote after : List Char} (hbefore : sym.openQuote ∉ before)
    (hquote : sym.closeQuote ∉ quote) (h : ¬ (Text.AllBlank before ∧ Text.AllBlank after)) :
    Crowded sym (before ++ sym.openQuote :: (quote ++ sym.closeQuote :: after)) :=
  ⟨before, quote, after, rfl, quotesClosed_of_not_mem hbefore, hquote, h⟩

/-- A quote is refused behind anything but blanks. -/
theorem readArguments_before_quote (hsym : sym.InUse) {before : List Char} (hquote : sym.openQuote ∉ before)
    (hcomma : sym.comma ∉ before) (h : ¬ Text.AllBlank before) (rest : List Char) :
    readArguments sym (.bare []) (before ++ sym.openQuote :: rest) = .error .unbalanced := by
  have hopen : sym.openQuote ≠ sym.comma ∧ Text.isBlank sym.openQuote = false := by
    rcases hsym with rfl | rfl <;> decide
  have hall : (before.reverse ++ []).all Text.isBlank ≠ true := by
    rw [List.append_nil, List.all_reverse]
    exact fun hall => h (List.all_eq_true.1 hall)
  have hplain : ∀ c ∈ before, c ≠ sym.comma ∧ c ≠ sym.openQuote :=
    fun c hc => ⟨fun h => hcomma (h ▸ hc), fun h => hquote (h ▸ hc)⟩
  rw [readArguments_plain hplain, readArguments, if_neg hopen.1, hopen.2, if_neg (by decide), if_pos rfl, if_neg hall]

/-- Behind a quote, anything but blanks is refused before the next comma. -/
theorem readArguments_after_quote (hsym : sym.InUse) {after : List Char} (h : ¬ Text.AllBlank after)
    (hcomma : ∀ bs rest, after = bs ++ sym.comma :: rest → ¬ Text.AllBlank bs) (text rest : List Char) :
    readArguments sym (.closed text) (after ++ rest) = .error .unbalanced := by
  obtain ⟨bs, hbs, hafter⟩ := Text.exists_blanks after
  cases hstart : Text.trimStart after with
  | nil =>
    rw [hstart, List.append_nil] at hafter
    exact absurd (hafter ▸ hbs) h
  | cons c cs =>
    rw [hstart] at hafter
    have hc : c ≠ sym.comma := by
      rintro rfl
      exact hcomma bs cs hafter hbs
    rw [hafter, List.append_assoc, readArguments_closed_blanks hsym hbs, List.cons_append, readArguments, if_neg hc,
      Text.head_trimStart hstart, if_neg (by decide)]

/-- A piece without blanks at its ends is crowded, a word, or a quote. -/
theorem IsPiece.cases (hsym : sym.InUse) {q : List Char} (h : IsPiece sym q) (hsolid : Text.Solid q) :
    (Crowded sym q ∧ ∀ rest, readArguments sym (.bare []) (q ++ rest) = .error .unbalanced) ∨
    (sym.openQuote ∉ q ∧ sym.comma ∉ q) ∨
    ∃ quote, q = sym.openQuote :: (quote ++ [sym.closeQuote]) ∧ sym.closeQuote ∉ quote := by
  rcases h.first_quote with hplain | ⟨before, quote, after, rfl, hopen, hcomma, hquote⟩
  · exact .inr (.inl hplain)
  by_cases hbefore : Text.AllBlank before
  · by_cases hafter : Text.AllBlank after
    · -- without blanks at the ends nothing stands beside the quote
      have hblank : Text.isBlank sym.openQuote = false ∧ Text.isBlank sym.closeQuote = false := by
        rcases hsym with rfl | rfl <;> decide
      have hends : Text.Solid (sym.openQuote :: (quote ++ [sym.closeQuote])) := by
        simp [Text.Solid, hblank, List.getLast?_cons]
      have htrim := hends.trim_append hbefore hafter
      rw [List.cons_append, List.append_assoc, List.singleton_append, hsolid.trim_eq] at htrim
      exact .inr (.inr ⟨quote, htrim, hquote⟩)
    · refine .inl ⟨crowded_of_before hopen hquote fun h => hafter h.2, fun rest => ?_⟩
      rw [List.append_assoc, List.cons_append, List.append_assoc, List.cons_append,
        readArguments_quote hsym hbefore hquote]
      refine readArguments_after_quote hsym hafter ?_ _ _
      rintro bs more rfl hbs
      refine h.no_comma (before ++ sym.openQuote :: (quote ++ sym.closeQuote :: bs)) more (by simp) ?_
      exact (quotesClosed_of_not_mem hopen).append (quotesClosed_quote hquote ⟨bs, outside_blanks hsym.separate hbs⟩)
  · refine .inl ⟨crowded_of_before hopen hquote fun h => hbefore h.1, fun rest => ?_⟩
    rw [List.append_assoc, List.cons_append]
    exact readArguments_before_quote hsym hopen hcomma hbefore _

theorem Value.ofPart_of_not_mem {q : List Char} (h : sym.openQuote ∉ q) :
    Value.ofPart sym (String.ofList q) = .ofWord (String.ofList q) := by
  have hhead : q.head? ≠ some sym.openQuote := fun hhead => h (List.mem_of_mem_head? hhead)
  rw [Value.ofPart, String.toList_ofList, if_neg hhead]

theorem Value.ofPart_quote {quote : List Char} (h : sym.closeQuote ∉ quote) :
    Value.ofPart sym (String.ofList (sym.openQuote :: (quote ++ [sym.closeQuote]))) = .text (String.ofList quote) := by
  have hrun : ∀ c ∈ quote, (c != sym.closeQuote) = true := by
    intro c hc
    exact bne_iff_ne.2 fun heq => h (heq ▸ hc)
  have htake : (quote ++ [sym.closeQuote]).takeWhile (· != sym.closeQuote) = quote :=
    Expr.takeWhile_run hrun (by simp [Expr.startsWith])
  rw [Value.ofPart, String.toList_ofList, List.head?_cons, if_pos rfl, List.tail_cons, htake]

/-- **A piece that is not crowded is read as one value.**  The last piece is left out if it is blank. -/
theorem readArguments_piece (hsym : sym.InUse) {p : List Char} (h : IsPiece sym p) :
    (Crowded sym (Text.trim p) ∧ ∀ rest, readArguments sym (.bare []) (p ++ rest) = .error .unbalanced) ∨
    (¬ Crowded sym (Text.trim p) ∧
      (∀ rest, readArguments sym (.bare []) (p ++ sym.comma :: rest) =
        (readArguments sym (.bare []) rest).map (Value.ofPart sym (String.ofList (Text.trim p)) :: ·)) ∧
      readArguments sym (.bare []) p =
        .ok ((withoutLastEmpty [String.ofList (Text.trim p)]).map (Value.ofPart sym))) := by
  obtain ⟨as, bs, has, hbs, hp⟩ := Text.exists_trim p
  have hsolid := Text.solid_trim p
  have hpiece := h.trim hsym.separate
  -- blanks before the piece are read first, and those behind it with what follows
  have hstart : ∀ rest, readArguments sym (.bare []) (p ++ rest) =
      readArguments sym (.bare []) (Text.trim p ++ (bs ++ rest)) := by
    intro rest
    calc readArguments sym (.bare []) (p ++ rest)
        = readArguments sym (.bare []) (as ++ (Text.trim p ++ (bs ++ rest))) := by
          rw [← List.append_assoc (Text.trim p), ← List.append_assoc as, ← hp]
      _ = readArguments sym (.bare []) (Text.trim p ++ (bs ++ rest)) := readArguments_blanks_append hsym has _
  have hwhole := readArguments_trim hsym p
  generalize Text.trim p = q at *
  rcases hpiece.cases hsym hsolid with ⟨hcrowded, hread⟩ | ⟨hopen, hcomma⟩ | ⟨quote, rfl, hquote⟩
  · exact .inl ⟨hcrowded, fun rest => by rw [hstart, hread]⟩
  · have hplain : ∀ c ∈ q, c ≠ sym.comma ∧ c ≠ sym.openQuote :=
      fun c hc => ⟨fun h => hcomma (h ▸ hc), fun h => hopen (h ▸ hc)⟩
    refine .inr ⟨?_, fun rest => ?_, ?_⟩
    · rintro ⟨before, quote, after, rfl, -⟩
      simp at hopen
    · rw [hstart, readArguments_plain hplain, readArguments_bare_blanks hsym hbs, readArguments, if_pos rfl,
        Value.ofPart_of_not_mem hopen]
      simp [Text.trim_append_blanks hbs, hsolid.trim_eq]
    · have hend := readArguments_plain hplain [] []
      rw [List.append_nil, List.append_nil] at hend
      rw [← hwhole, hend, readArguments, List.all_reverse, List.reverse_reverse, hsolid.trim_eq,
        withoutLastEmpty_singleton]
      by_cases hq : q = []
      · subst hq
        rfl
      · have hvisible : q.all Text.isBlank ≠ true := fun hall => hq (hsolid.eq_nil (List.all_eq_true.1 hall))
        rw [if_neg hvisible, if_neg (by simpa using hq), List.map_singleton, Value.ofPart_of_not_mem hopen]
  · have hread : ∀ rest, readArguments sym (.bare []) (sym.openQuote :: (quote ++ [sym.closeQuote]) ++ rest) =
        readArguments sym (.closed quote.reverse) rest := by
      intro rest
      have hquoted := readArguments_quote hsym Text.AllBlank.nil hquote rest
      simpa using hquoted
    have hholds : (Argument.closed quote.reverse).Holds sym _ := holds_closed quote.reverse
    rw [List.reverse_reverse] at hholds
    refine .inr ⟨not_crowded_quote hquote, fun rest => ?_, ?_⟩
    · rw [hstart, hread, readArguments_closed_blanks hsym hbs, hholds.2, Value.ofPart_quote hquote]
    · have hquoted := hread []
      rw [List.append_nil] at hquoted
      rw [← hwhole, hquoted, hholds.1, withoutLastEmpty_singleton, if_neg (by simp), List.map_singleton,
        Value.ofPart_quote hquote]

/-! ## All pieces -/

theorem exists_pieces (hsym : sym.Separate) {cs : List Char} (h : QuotesClosed sym cs) :
    ∃ ps, ps ≠ [] ∧ [sym.comma].intercalate ps = cs ∧ ∀ p ∈ ps, IsPiece sym p := by
  have hcomma : QuotesClosed sym [sym.comma] := quotesClosed_of_not_mem (by simpa using hsym.comma_ne.2.2.symm)
  refine exists_uncut _ _ (fun before after hbefore hall => ?_) h
  have hafter := hbefore.of_append hall
  rw [← List.singleton_append] at hafter
  exact hcomma.of_append hafter

/-- **A text with closed quotes is refused if one of its pieces is crowded, and else read piece by piece.** -/
theorem readArguments_pieces (hsym : sym.InUse) {ps : List (List Char)} (hne : ps ≠ []) (h : ∀ p ∈ ps, IsPiece sym p) :
    ((∃ p ∈ ps, Crowded sym (Text.trim p)) ∧
      readArguments sym (.bare []) ([sym.comma].intercalate ps) = .error .unbalanced) ∨
    ((∀ p ∈ ps, ¬ Crowded sym (Text.trim p)) ∧
      readArguments sym (.bare []) ([sym.comma].intercalate ps) =
        .ok ((withoutLastEmpty (ps.map fun p => String.ofList (Text.trim p))).map (Value.ofPart sym))) := by
  induction ps with
  | nil => exact absurd rfl hne
  | cons p ps ih =>
    have hp := readArguments_piece hsym (h p List.mem_cons_self)
    cases ps with
    | nil =>
      rw [List.intercalate_singleton]
      rcases hp with ⟨hcrowded, hread⟩ | ⟨hcrowded, -, hread⟩
      · refine .inl ⟨⟨p, List.mem_cons_self, hcrowded⟩, ?_⟩
        rw [← List.append_nil p, hread]
      · exact .inr ⟨by simpa using hcrowded, hread⟩
    | cons q ps =>
      rw [List.intercalate_cons_cons, List.append_assoc, List.singleton_append]
      rcases hp with ⟨hcrowded, hread⟩ | ⟨hcrowded, hread, -⟩
      · exact .inl ⟨⟨p, List.mem_cons_self, hcrowded⟩, hread _⟩
      rw [hread]
      rcases ih (by simp) fun p hp => h p (List.mem_cons_of_mem _ hp) with ⟨⟨r, hr, hrest⟩, hfault⟩ | ⟨hrest, hvalues⟩
      · exact .inl ⟨⟨r, List.mem_cons_of_mem _ hr, hrest⟩, by rw [hfault]; rfl⟩
      · refine .inr ⟨?_, ?_⟩
        · intro r hr
          rcases List.mem_cons.1 hr with rfl | hr
          · exact hcrowded
          · exact hrest r hr
        · rw [hvalues]
          simp only [List.map_cons, withoutLastEmpty_cons_cons]
          rfl

/-! ## Open quotes -/

/-- The reader is not inside quotes. -/
def Argument.IsOutside : Argument → Prop
  | .inside _ => False
  | .bare _ => True
  | .closed _ => True

theorem readArguments_cons {c : Char} (hc : c ≠ sym.openQuote) {a : Argument} (ha : a.IsOutside) :
    (∀ rest, readArguments sym a (c :: rest) = .error .unbalanced) ∨
      ∃ b : Argument, b.IsOutside ∧
        ∃ f, ∀ rest, readArguments sym a (c :: rest) = (readArguments sym b rest).map f := by
  by_cases hcomma : c = sym.comma
  · subst hcomma
    refine .inr ⟨.bare [], trivial, ?_⟩
    cases a with
    | inside => cases ha
    | bare text => exact ⟨_, fun rest => by rw [readArguments, if_pos rfl]⟩
    | closed text => exact ⟨_, fun rest => by rw [readArguments, if_pos rfl]⟩
  · cases a with
    | inside => cases ha
    | bare text =>
      refine .inr ⟨.bare (c :: text), trivial, id, fun rest => ?_⟩
      rw [readArguments, if_neg hcomma, if_neg hc, ite_self, Except.map_id, id]
    | closed text =>
      cases hblank : Text.isBlank c with
      | true =>
        refine .inr ⟨.closed text, trivial, id, fun rest => ?_⟩
        rw [readArguments, if_neg hcomma, if_pos hblank, Except.map_id, id]
      | false =>
        refine .inl fun rest => ?_
        rw [readArguments, if_neg hcomma, hblank, if_neg (by decide)]

theorem readArguments_openQuote (hsym : sym.InUse) {a : Argument} (ha : a.IsOutside) :
    (∀ rest, readArguments sym a (sym.openQuote :: rest) = .error .unbalanced) ∨
      ∀ rest, readArguments sym a (sym.openQuote :: rest) = readArguments sym (.inside []) rest := by
  have hopen : sym.openQuote ≠ sym.comma ∧ Text.isBlank sym.openQuote = false := by
    rcases hsym with rfl | rfl <;> decide
  cases a with
  | inside => cases ha
  | bare text =>
    by_cases hblank : text.all Text.isBlank = true
    · refine .inr fun rest => ?_
      rw [readArguments, if_neg hopen.1, hopen.2, if_neg (by decide), if_pos rfl, if_pos hblank]
    · refine .inl fun rest => ?_
      rw [readArguments, if_neg hopen.1, hopen.2, if_neg (by decide), if_pos rfl, if_neg hblank]
  | closed text =>
    refine .inl fun rest => ?_
    rw [readArguments, if_neg hopen.1, hopen.2, if_neg (by decide)]

/-- A text with closed quotes is refused, or the reader is outside quotes again behind it. -/
theorem Outside.readArguments_append (hsym : sym.InUse) {cs out : List Char} (h : Outside sym cs out) {a : Argument}
    (ha : a.IsOutside) :
    (∀ rest, readArguments sym a (cs ++ rest) = .error .unbalanced) ∨
      ∃ b : Argument, b.IsOutside ∧
        ∃ f, ∀ rest, readArguments sym a (cs ++ rest) = (readArguments sym b rest).map f := by
  induction h generalizing a with
  | nil => exact .inr ⟨a, ha, id, fun rest => by rw [List.nil_append, Except.map_id, id]⟩
  | plain hc _ ih =>
    rcases readArguments_cons hc ha with hfault | ⟨b, hb, f, hf⟩
    · exact .inl fun rest => hfault _
    rcases ih hb with hfault | ⟨d, hd, g, hg⟩
    · refine .inl fun rest => ?_
      rw [List.cons_append, hf, hfault]
      rfl
    · refine .inr ⟨d, hd, fun vs => f (g vs), fun rest => ?_⟩
      rw [List.cons_append, hf, hg, map_map_eq]
  | @quoted quote cs out hquote _ ih =>
    rcases readArguments_openQuote hsym ha with hfault | hinside
    · exact .inl fun rest => hfault _
    have hread : ∀ rest, readArguments sym a (sym.openQuote :: (quote ++ sym.closeQuote :: cs) ++ rest) =
        readArguments sym (.closed (quote.reverse ++ [])) (cs ++ rest) := by
      intro rest
      rw [List.cons_append, List.append_assoc, List.cons_append, hinside, readArguments_inside hquote]
    simp only [hread]
    exact ih trivial

/-- **A text with an open quote is never read.**  The fault is in the quote, unless something is crowded once the
quote is closed. -/
theorem readArguments_of_not_quotesClosed (hsym : sym.InUse) {cs : List Char} (h : ¬ QuotesClosed sym cs) :
    (readArguments sym (.bare []) cs = .error .unbalanced ∧
      readArguments sym (.bare []) (cs ++ [sym.closeQuote]) = .error .unbalanced) ∨
    (readArguments sym (.bare []) cs = .error .unterminated ∧
      ∃ vs, readArguments sym (.bare []) (cs ++ [sym.closeQuote]) = .ok vs) := by
  rcases quotesClosed_or_open sym cs with hclosed | ⟨before, out, quote, rfl, hout, hquote⟩
  · exact absurd hclosed h
  rw [List.append_assoc, List.cons_append]
  rcases hout.readArguments_append hsym (a := .bare []) trivial with hfault | ⟨b, hb, f, hf⟩
  · exact .inl ⟨hfault _, hfault _⟩
  rw [hf, hf]
  rcases readArguments_openQuote hsym hb with hfault | hinside
  · rw [hfault, hfault]
    exact .inl ⟨rfl, rfl⟩
  · rw [hinside, hinside, readArguments_open_quote hquote, readArguments_inside hquote, readArguments]
    exact .inr ⟨rfl, _, rfl⟩

end

end SceneScript
