import SceneScript.Proofs.Split.Pieces

/-!
# Agreement of the two readers of arguments

The splitter of a list of arguments counts brackets, the reader of a call does not.  Where no bracket stands outside the
quotes both see the same pieces, so the reader gives the values of the parts that the splitter gives, and refuses a list
only where the splitter does or where a part is crowded.

    the pieces of a text without brackets are its segments           (isSegmentation_of_pieces)
    Call.parse sym name(inner) and splitArguments sym inner          (parse_agrees_splitArguments)
-/

namespace SceneScript

section

variable {sym : Symbols}

theorem NoBrackets.of_mem_pieces (hsym : sym.Separate) {ps : List (List Char)} (hps : ∀ p ∈ ps, IsPiece sym p)
    (h : NoBrackets sym ([sym.comma].intercalate ps)) {p : List Char} (hp : p ∈ ps) : NoBrackets sym p := by
  have hcomma : QuotesClosed sym [sym.comma] := quotesClosed_of_not_mem (by simpa using hsym.comma_ne.2.2.symm)
  induction ps with
  | nil => cases hp
  | cons q ps ih =>
    cases ps with
    | nil =>
      obtain rfl := List.mem_singleton.1 hp
      rwa [List.intercalate_singleton] at h
    | cons r ps =>
      rw [List.intercalate_cons_cons] at h
      rcases List.mem_cons.1 hp with rfl | hp
      · rw [List.append_assoc] at h
        exact h.of_append
      · have hfirst := (hps q List.mem_cons_self).whole.append hcomma
        exact ih (fun p hp => hps p (List.mem_cons_of_mem _ hp)) (h.of_prepend hfirst) hp

/-- Without brackets outside the quotes, pieces are segments. -/
theorem isSegmentation_of_pieces (hsym : sym.Separate) {ps : List (List Char)} (hps : ∀ p ∈ ps, IsPiece sym p)
    (h : NoBrackets sym ([sym.comma].intercalate ps)) : IsSegmentation sym ([sym.comma].intercalate ps) ps := by
  refine ⟨rfl, fun p hp => ⟨?_, fun before after hcut hbefore => ?_⟩⟩
  · exact (NoBrackets.of_mem_pieces hsym hps h hp).balanced hsym (hps p hp).whole
  · obtain ⟨out, hout, -⟩ := hbefore
    exact (hps p hp).no_comma before after hcut ⟨out, hout⟩

/-- What the reader and the splitter make of one list of arguments. -/
theorem readArguments_agrees (hsym : sym.InUse) {inner : String} (h : NoBrackets sym inner.toList) :
    (∃ parts, splitArguments sym inner = .ok parts ∧
      ((∃ part ∈ parts, Crowded sym part.toList) ∧
        readArguments sym (.bare []) (Text.trim inner.toList) = .error .unbalanced ∨
      (∀ part ∈ parts, ¬ Crowded sym part.toList) ∧
        readArguments sym (.bare []) (Text.trim inner.toList) =
          .ok ((withoutLastEmpty parts).map (Value.ofPart sym)))) ∨
    (splitArguments sym inner = .error (.unterminatedQuote (trimmed inner)) ∧
      ∃ fault, readArguments sym (.bare []) (Text.trim inner.toList) = .error fault) := by
  have hbrackets := h.trim hsym.separate
  by_cases hquotes : QuotesClosed sym (Text.trim inner.toList)
  · left
    by_cases hne : Text.trim inner.toList = []
    · refine ⟨[], splitArguments_of_blank hne, .inr ⟨by simp, ?_⟩⟩
      rw [hne, readArguments]
      rfl
    · obtain ⟨ps, hps, hjoined, hpieces⟩ := exists_pieces hsym.separate hquotes
      rw [← hjoined] at hbrackets
      have hsegs := isSegmentation_of_pieces hsym.separate hpieces hbrackets
      rw [hjoined] at hsegs
      refine ⟨_, splitArguments_of_isSegmentation hsym.separate hne hsegs, ?_⟩
      simpa [hjoined] using readArguments_pieces hsym hps hpieces
  · right
    have hsplit := segments_of_not_quotesClosed hsym.separate hquotes (hbrackets.not_overclosed hsym.separate)
    refine ⟨splitArguments_of_error hsplit, ?_⟩
    rcases readArguments_of_not_quotesClosed hsym hquotes with ⟨hread, -⟩ | ⟨hread, -⟩
    · exact ⟨_, hread⟩
    · exact ⟨_, hread⟩

/-- A name and arguments in brackets are a call. -/
theorem parse_bracketed (hsym : sym.InUse) {name : String} (hname : sym.openBracket ∉ name.toList) (inner : String) :
    Call.parse sym (String.ofList (name.toList ++ sym.openBracket :: (inner.toList ++ [sym.closeBracket]))) =
      ((readArguments sym (.bare []) (Text.trim inner.toList)).mapError (·.inText (Text.trim inner.toList))).map
        (Call.mk (trimmed name)) := by
  obtain ⟨as, has, hcut⟩ := Text.exists_blanks name.toList
  have htrim : Text.trim (Text.trimStart name.toList) = Text.trim name.toList := by
    rw [Text.trim, ← Text.trimStart_append has, ← hcut, ← Text.trim]
  have hopen : sym.openBracket ∉ Text.trimStart name.toList := by
    rw [hcut] at hname
    exact fun hmem => hname (List.mem_append_right _ hmem)
  have hblank : Text.isBlank sym.openBracket = false ∧ Text.isBlank sym.closeBracket = false := by
    rcases hsym with rfl | rfl <;> decide
  have hsolid : Text.Solid (Text.trimStart name.toList ++ sym.openBracket :: (inner.toList ++ [sym.closeBracket])) := by
    refine ⟨?_, by simp [List.getLast?_append, List.getLast?_cons, hblank.2]⟩
    cases hstart : Text.trimStart name.toList with
    | nil => simp [hblank.1]
    | cons c cs => simp [Text.head_trimStart hstart]
  have htext := hsolid.trim_append has Text.AllBlank.nil
  rw [List.append_nil, ← List.append_assoc, ← hcut] at htext
  rw [Call.parse_framed htext hopen, htrim]
  rfl

/-- **The reader of a call and the splitter of arguments agree where no bracket stands outside the quotes.**  If the
call is read, its arguments are the parts that the splitter gives, a last empty one left out, each as the text of
its quote or as the word that it is.  It is refused exactly if the splitter finds an open quote or a part is
crowded. -/
theorem parse_agrees_splitArguments (hsym : sym.InUse) {name : String} (hname : sym.openBracket ∉ name.toList)
    {inner : String} (hinner : NoBrackets sym inner.toList) :
    let text := String.ofList (name.toList ++ sym.openBracket :: (inner.toList ++ [sym.closeBracket]))
    (∀ call, Call.parse sym text = .ok call →
      call.name = trimmed name ∧
      ∃ parts, splitArguments sym inner = .ok parts ∧
        call.args = (withoutLastEmpty parts).map (Value.ofPart sym)) ∧
    ((∃ fault, Call.parse sym text = .error fault) ↔
      splitArguments sym inner = .error (.unterminatedQuote (trimmed inner)) ∨
      ∃ parts, splitArguments sym inner = .ok parts ∧ ∃ part ∈ parts, Crowded sym part.toList) := by
  intro text
  have hparse : Call.parse sym text = _ := parse_bracketed hsym hname inner
  rcases readArguments_agrees hsym hinner with
    ⟨parts, hsplit, ⟨hcrowded, hread⟩ | ⟨hcrowded, hread⟩⟩ | ⟨hsplit, fault, hread⟩
  · rw [hparse, hread, hsplit]
    refine ⟨?_, fun _ => .inr ⟨parts, rfl, hcrowded⟩, fun _ => ⟨_, rfl⟩⟩
    rintro call ⟨⟩
  · rw [hparse, hread, hsplit]
    refine ⟨?_, ?_, ?_⟩
    · rintro call ⟨rfl⟩
      exact ⟨rfl, parts, rfl, rfl⟩
    · rintro ⟨fault, hfault⟩
      cases hfault
    · rintro (h | ⟨_, ⟨rfl⟩, part, hpart, hbeside⟩)
      · cases h
      · exact absurd hbeside (hcrowded part hpart)
  · rw [hparse, hread, hsplit]
    refine ⟨?_, fun _ => .inl rfl, fun _ => ⟨_, rfl⟩⟩
    rintro call ⟨⟩

/-- A quote with a comma and a bracket in it, and nothing behind the last comma. -/
theorem parse_agrees_quoted :
    Symbols.chinese.InUse ∧ Symbols.chinese.openBracket ∉ " 输出".toList ∧
      NoBrackets .chinese "“（，”	，， 12，".toList ∧
      ∃ parts, splitArguments .chinese "“（，”	，， 12，" = .ok parts ∧
        [.text "（，", .text "", .int 12] = (withoutLastEmpty parts).map (Value.ofPart .chinese) := by
  have hname : Symbols.chinese.openBracket ∉ " 输出".toList := by decide
  have hout : Outside .chinese "“（，”	，， 12，".toList "	，， 12，".toList :=
    .quoted (by decide : Symbols.chinese.closeQuote ∉ ['（', '，']) (outside_self (by decide))
  have hinner : NoBrackets .chinese "“（，”	，， 12，".toList := by
    intro b hb hstands
    have hne : ∀ b ∈ [Symbols.chinese.openBracket, Symbols.chinese.closeBracket],
        b ≠ Symbols.chinese.openQuote ∧ b ∉ "	，， 12，".toList := by decide
    exact (hne b hb).2 (hstands.mem (hne b hb).1 hout)
  refine ⟨.inr rfl, hname, hinner, ?_⟩
  exact ((parse_agrees_splitArguments (.inr rfl) hname hinner).1 ⟨"输出", _⟩ rfl).2

end

end SceneScript
