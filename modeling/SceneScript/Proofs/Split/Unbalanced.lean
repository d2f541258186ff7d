import SceneScript.Proofs.Split.Pieces

/-!
# Calls with unbalanced brackets

The reader of a call looks for the first bracket that opens and the last that closes.  A text that these frame is
read from what stands between them, where brackets do not count; any other text with a bracket is refused.  So a
text whose brackets are not balanced is refused for them if it is not framed, but may be read if it is.

    readArguments sym (.bare []) cs = .error .unbalanced ↔ HasCrowded sym cs    (readArguments_eq_unbalanced_iff)
    Call.parse of a text that is not framed                          (parse_of_not_framed)
    Call.parse of a text with unbalanced brackets                    (parse_of_unbalanced)
-/

namespace SceneScript

/-- Without blanks at its ends, the text is a name and `inner` in brackets. -/
def Framed (sym : Symbols) (text : String) (name inner : List Char) : Prop :=
  Text.trim text.toList = name ++ sym.openBracket :: (inner ++ [sym.closeBracket]) ∧ sym.openBracket ∉ name

/-- The text with its last quote closed, if that is open. -/
def IsClosing (sym : Symbols) (cs whole : List Char) : Prop :=
  (QuotesClosed sym cs ∧ whole = cs) ∨ (¬ QuotesClosed sym cs ∧ whole = cs ++ [sym.closeQuote])

/-- Some piece of the text is crowded, where an open quote goes to the end of the text. -/
def HasCrowded (sym : Symbols) (cs : List Char) : Prop :=
  ∃ whole ps, IsClosing sym cs whole ∧ [sym.comma].intercalate ps = whole ∧ (∀ p ∈ ps, IsPiece sym p) ∧
    ∃ p ∈ ps, Crowded sym (Text.trim p)

section

variable {sym : Symbols}

/-! ## Crowded arguments -/

theorem exists_isClosing (sym : Symbols) (cs : List Char) :
    ∃ whole, IsClosing sym cs whole ∧ QuotesClosed sym whole := by
  rcases quotesClosed_or_open sym cs with hclosed | ⟨before, out, quote, rfl, hout, hquote⟩
  · exact ⟨cs, .inl ⟨hclosed, rfl⟩, hclosed⟩
  · refine ⟨_, .inr ⟨not_quotesClosed_of_open hout hquote, rfl⟩, ?_⟩
    rw [List.append_assoc, List.cons_append]
    exact QuotesClosed.append ⟨out, hout⟩ (quotesClosed_quote hquote ⟨[], .nil⟩)

theorem readArguments_isClosing (hsym : sym.InUse) {cs whole : List Char} (h : IsClosing sym cs whole) :
    readArguments sym (.bare []) cs = .error .unbalanced ↔ readArguments sym (.bare []) whole = .error .unbalanced := by
  rcases h with ⟨-, rfl⟩ | ⟨hopen, rfl⟩
  · exact Iff.rfl
  · rcases readArguments_of_not_quotesClosed hsym hopen with ⟨hread, hwhole⟩ | ⟨hread, vs, hwhole⟩ <;>
      simp [hread, hwhole]

/-- The brackets are given as the fault of a list of arguments only for a crowded piece. -/
theorem readArguments_eq_unbalanced_iff (hsym : sym.InUse) {cs : List Char} :
    readArguments sym (.bare []) cs = .error .unbalanced ↔ HasCrowded sym cs := by
  constructor
  · intro hread
    obtain ⟨whole, hwhole, hclosed⟩ := exists_isClosing sym cs
    obtain ⟨ps, hne, rfl, hpieces⟩ := exists_pieces hsym.separate hclosed
    rw [readArguments_isClosing hsym hwhole] at hread
    rcases readArguments_pieces hsym hne hpieces with ⟨hcrowded, -⟩ | ⟨-, hvalues⟩
    · exact ⟨_, ps, hwhole, rfl, hpieces, hcrowded⟩
    · rw [hread] at hvalues
      cases hvalues
  · rintro ⟨whole, ps, hwhole, rfl, hpieces, p, hp, hcrowded⟩
    rw [readArguments_isClosing hsym hwhole]
    rcases readArguments_pieces hsym (List.ne_nil_of_mem hp) hpieces with ⟨-, hread⟩ | ⟨hnone, -⟩
    · exact hread
    · exact absurd hcrowded (hnone p hp)

theorem exists_readArguments_iff (hsym : sym.InUse) {cs : List Char} :
    (∃ vs, readArguments sym (.bare []) cs = .ok vs) ↔ QuotesClosed sym cs ∧ ¬ HasCrowded sym cs := by
  rw [← readArguments_eq_unbalanced_iff hsym]
  by_cases hclosed : QuotesClosed sym cs
  · obtain ⟨ps, hne, rfl, hpieces⟩ := exists_pieces hsym.separate hclosed
    rcases readArguments_pieces hsym hne hpieces with ⟨-, hread⟩ | ⟨-, hread⟩ <;> simp [hread, hclosed]
  · rcases readArguments_of_not_quotesClosed hsym hclosed with ⟨hread, -⟩ | ⟨hread, -⟩ <;> simp [hread, hclosed]

/-! ## Frames -/

theorem Framed.unique {text : String} {name inner name' inner' : List Char} (h : Framed sym text name inner)
    (h' : Framed sym text name' inner') : name' = name ∧ inner' = inner := by
  have heq := h'.1.symm.trans h.1
  obtain ⟨rfl, hrest⟩ := append_cons_inj heq h'.2 h.2
  exact ⟨rfl, List.append_cancel_right hrest⟩

theorem Framed.parse_eq {text : String} {name inner : List Char} (h : Framed sym text name inner) :
    Call.parse sym text =
      ((readArguments sym (.bare []) (Text.trim inner)).mapError (·.inText (Text.trim inner))).map
        (Call.mk (String.ofList (Text.trim name))) := by
  rw [← Call.parse_framed h.1 h.2, String.ofList_toList]

theorem Framed.parse_eq_unbalanced_iff (hsym : sym.InUse) {text : String} {name inner : List Char}
    (h : Framed sym text name inner) :
    (∃ part, Call.parse sym text = .error (.unbalancedBracket part)) ↔ HasCrowded sym inner := by
  rw [h.parse_eq, readArguments_trim hsym, ← readArguments_eq_unbalanced_iff hsym]
  cases readArguments sym (.bare []) inner with
  | ok vs => simp [Except.mapError, Except.map]
  | error fault => cases fault <;> simp [Except.mapError, Except.map, SplitFault.inText]

theorem Framed.exists_parse_iff (hsym : sym.InUse) {text : String} {name inner : List Char}
    (h : Framed sym text name inner) :
    (∃ call, Call.parse sym text = .ok call) ↔ QuotesClosed sym inner ∧ ¬ HasCrowded sym inner := by
  rw [h.parse_eq, readArguments_trim hsym, ← exists_readArguments_iff hsym]
  cases readArguments sym (.bare []) inner <;> simp [Except.mapError, Except.map]

theorem exists_framed {text : String} {name before rest after : List Char}
    (hfirst : Text.trim text.toList = name ++ sym.openBracket :: rest) (hname : sym.openBracket ∉ name)
    (hlast : Text.trim text.toList = before ++ sym.closeBracket :: after) (hlt : name.length < before.length)
    (hafter : Text.AllBlank after) : ∃ inner, Framed sym text name inner := by
  have hsolid := Text.solid_trim text.toList
  -- without blanks at the end, the closing bracket is the last character
  obtain rfl : after = [] := by
    rcases List.eq_nil_or_concat after with rfl | ⟨start, c, rfl⟩
    · rfl
    · have hc := hsolid.2 c (by simp [hlast, List.getLast?_cons, List.getLast?_append])
      rw [hafter c (by simp)] at hc
      cases hc
  have hstart : name ++ [sym.openBracket] <+: before := by
    refine List.prefix_of_prefix_length_le ⟨rest, ?_⟩ ⟨[sym.closeBracket], hlast.symm⟩ (by simp; omega)
    rw [hfirst]
    simp
  obtain ⟨inner, rfl⟩ := hstart
  exact ⟨inner, by rw [hlast]; simp, hname⟩

/-- A text with a bracket is refused if it is not framed. -/
theorem parse_of_not_framed {text : String}
    (hmem : sym.openBracket ∈ Text.trim text.toList ∨ sym.closeBracket ∈ Text.trim text.toList)
    (h : ∀ name inner, ¬ Framed sym text name inner) :
    Call.parse sym text = .error (.unbalancedBracket (trimmed text)) := by
  cases hfirst : cutFirst sym.openBracket (Text.trim text.toList) with
  | none =>
    cases hlast : cutLast sym.closeBracket (Text.trim text.toList) with
    | none =>
      rw [cutFirst_eq_none_iff] at hfirst
      rw [cutLast_eq_none_iff] at hlast
      exact absurd hmem (by simp [hfirst, hlast])
    | some cut => simp [Call.parse, hfirst, hlast, trimmed]
  | some cut =>
    obtain ⟨name, rest⟩ := cut
    cases hlast : cutLast sym.closeBracket (Text.trim text.toList) with
    | none => simp [Call.parse, hfirst, hlast, trimmed]
    | some cut =>
      obtain ⟨before, after⟩ := cut
      have hnot : ¬ (name.length < before.length ∧ after.all Text.isBlank = true) := by
        rintro ⟨hlt, hafter⟩
        rw [cutFirst_eq_some_iff] at hfirst
        rw [cutLast_eq_some_iff] at hlast
        obtain ⟨inner, hframed⟩ := exists_framed hfirst.1 hfirst.2 hlast.1 hlt (List.all_eq_true.1 hafter)
        exact h name inner hframed
      simp only [Call.parse, hfirst, hlast]
      rw [if_neg hnot]
      rfl

/-- Where the brackets of a framed text are not balanced, one stands where the reader does not look for it, or a
quote does that could hide one. -/
theorem Framed.stray_bracket (hsym : sym.InUse) {text : String} {name inner : List Char}
    (h : Framed sym text name inner) (hquotes : QuotesClosed sym text.toList)
    (hbrackets : ¬ Balanced sym text.toList) :
    sym.closeBracket ∈ name ∨ sym.openQuote ∈ name ∨ ¬ NoBrackets sym inner := by
  have hsep := hsym.separate
  have hclose : sym.closeQuote ≠ sym.closeBracket := by
    rcases hsym with rfl | rfl <;> decide
  refine Classical.byContradiction fun hstray => hbrackets ?_
  rw [not_or, not_or, Classical.not_not] at hstray
  obtain ⟨hname, hquote, hinner⟩ := hstray
  have hname' : Balanced sym name := by
    refine (balanced_iff hsep.openBracket_ne.1).2 ⟨name, outside_self hquote, depthAfter_of_forall ?_ 0⟩
    exact fun c hc => ⟨fun heq => h.2 (heq ▸ hc), fun heq => hname (heq ▸ hc)⟩
  have hinner' : Balanced sym inner := by
    obtain ⟨out, hout⟩ := hquotes.trim hsep
    rw [h.1] at hout
    obtain ⟨rest, hrest, -⟩ := (outside_self hquote).of_append hout
    obtain ⟨rest, hrest, -⟩ := hrest.of_cons hsep.openBracket_ne.2
    obtain ⟨oinner, hoinner, -⟩ :=
      hrest.of_append_plain (by simpa using hsep.closeBracket_ne.symm) (by simpa using hclose)
    exact hinner.balanced hsep ⟨oinner, hoinner⟩
  rw [← balanced_trim_iff hsep, h.1]
  exact hname'.append hsep.openBracket_ne.1 (hinner'.bracketed hsep)

theorem exists_bracket (hsym : sym.InUse) {text : String} (hquotes : QuotesClosed sym text.toList)
    (hbrackets : ¬ Balanced sym text.toList) :
    sym.openBracket ∈ Text.trim text.toList ∨ sym.closeBracket ∈ Text.trim text.toList := by
  refine Classical.byContradiction fun hnone => hbrackets ?_
  rw [not_or] at hnone
  have hbalanced := (noBrackets_of_not_mem hnone.1 hnone.2).balanced hsym.separate (hquotes.trim hsym.separate)
  exact (balanced_trim_iff hsym.separate).1 hbalanced

/-- **What becomes of a text whose quotes are closed and whose brackets are not balanced.**  It is refused for its
brackets unless it is framed and nothing in the frame is crowded; in a frame without an open quote it is then read
as a call.  A frame can hold such a text only if a closing bracket or a quote stands in the name, or a bracket
outside the quotes of the arguments. -/
theorem parse_of_unbalanced (hsym : sym.InUse) {text : String} (hquotes : QuotesClosed sym text.toList)
    (hbrackets : ¬ Balanced sym text.toList) :
    ((∃ part, Call.parse sym text = .error (.unbalancedBracket part)) ↔
      ∀ name inner, Framed sym text name inner → HasCrowded sym inner) ∧
    ((∃ call, Call.parse sym text = .ok call) ↔
      ∃ name inner, Framed sym text name inner ∧ QuotesClosed sym inner ∧ ¬ HasCrowded sym inner) ∧
    ∀ name inner, Framed sym text name inner →
      sym.closeBracket ∈ name ∨ sym.openQuote ∈ name ∨ ¬ NoBrackets sym inner := by
  rw [← and_assoc]
  refine ⟨?_, fun name inner h => h.stray_bracket hsym hquotes hbrackets⟩
  by_cases hframed : ∃ name inner, Framed sym text name inner
  · obtain ⟨name, inner, hframed⟩ := hframed
    rw [hframed.parse_eq_unbalanced_iff hsym, hframed.exists_parse_iff hsym]
    refine ⟨⟨fun h name' inner' hother => ?_, fun h => h name inner hframed⟩,
      ⟨fun h => ⟨name, inner, hframed, h⟩, fun ⟨name', inner', hother, h⟩ => ?_⟩⟩
    · rwa [(hframed.unique hother).2]
    · rwa [(hframed.unique hother).2] at h
  · have hnone : ∀ name inner, ¬ Framed sym text name inner := fun name inner h => hframed ⟨name, inner, h⟩
    rw [parse_of_not_framed (exists_bracket hsym hquotes hbrackets) hnone]
    refine ⟨⟨fun _ name inner h => absurd h (hnone name inner), fun _ => ⟨_, rfl⟩⟩, ?_, ?_⟩
    · rintro ⟨call, hcall⟩
      cases hcall
    · rintro ⟨name, inner, h, -⟩
      exact absurd h (hnone name inner)

/-- The bracket that closes is in a quote. -/
theorem parse_quoted_bracket :
    Symbols.english.InUse ∧ QuotesClosed .english "say(\")\", \"(\"".toList ∧
      ¬ Balanced .english "say(\")\", \"(\"".toList ∧
      ∃ part, Call.parse .english "say(\")\", \"(\"" = .error (.unbalancedBracket part) := by
  have hout : Outside .english "say(\")\", \"(\"".toList "say(, ".toList :=
    (outside_self (by decide : _ ∉ "say(".toList)).append (.quoted (by decide : _ ∉ [')'])
      ((outside_self (by decide : _ ∉ ", ".toList)).append (.quoted (by decide : _ ∉ ['(']) .nil)))
  obtain ⟨hquotes, hbrackets⟩ := hout.not_balanced (by decide) (by decide)
  refine ⟨.inl rfl, hquotes, hbrackets, (parse_of_unbalanced (.inl rfl) hquotes hbrackets).1.2 ?_⟩
  rintro name inner ⟨htext, -⟩
  have hlast := congrArg List.getLast? htext
  rw [← List.cons_append, ← List.append_assoc, List.getLast?_concat] at hlast
  exact absurd hlast (by decide)

/-- Texts with unbalanced brackets that are not refused for them: one bracket stays open in the arguments, one
closes in the name, and one stands in a quote of the name. -/
theorem parse_accepts_unbalanced :
    ((QuotesClosed .english "f((1)".toList ∧ ¬ Balanced .english "f((1)".toList) ∧
      Call.parse .english "f((1)" = .ok ⟨"f", [.text "(1"]⟩) ∧
    ((QuotesClosed .english "a)b(c)".toList ∧ ¬ Balanced .english "a)b(c)".toList) ∧
      Call.parse .english "a)b(c)" = .ok ⟨"a)b", [.text "c"]⟩) ∧
    (QuotesClosed .english "a\"(\" b)".toList ∧ ¬ Balanced .english "a\"(\" b)".toList) ∧
      Call.parse .english "a\"(\" b)" = .error (.unterminatedQuote "\" b") := by
  refine ⟨⟨?_, rfl⟩, ⟨?_, rfl⟩, ?_, rfl⟩
  · exact (outside_self (by decide)).not_balanced (by decide) (by decide)
  · exact (outside_self (by decide)).not_balanced (by decide) (by decide)
  · have hout : Outside .english "a\"(\" b)".toList "a b)".toList :=
      (outside_self (by decide : _ ∉ ['a'])).append (.quoted (by decide : _ ∉ ['(']) (outside_self (by decide)))
    exact hout.not_balanced (by decide) (by decide)

end

end SceneScript
