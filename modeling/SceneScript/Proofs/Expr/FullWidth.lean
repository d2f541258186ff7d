import SceneScript.Proofs.Expr.Complete

/-!
# Full-width symbols in expressions

The full-width symbols add to the ASCII syntax of expressions and take nothing away.  The two readers go the same
way through a text, step by step, up to a full-width character that opens a bracket or a quote where an operand is
due; there the ASCII reader stops.  In a quoted text such a character is one like any other.

    Agrees cs (readTier .english fuel tier cs) (readTier .chinese fuel tier cs)      (read_agrees)
    parse .english t = .ok e → parse .chinese t = .ok e              (parse_chinese_of_english)
-/

namespace SceneScript.Expr

/-- The full-width characters that open a bracket or a quote. -/
def wideOpeners : List Char := [Symbols.chinese.openBracket, Symbols.chinese.openQuote]

/-- The two readers give the same answer, or the ASCII reader stops at a full-width opener of the text. -/
def Agrees {α : Type} (cs : List Char) (ascii wide : Except ExprFault α) : Prop :=
  wide = ascii ∨ ∃ c ∈ wideOpeners, c ∈ cs ∧ ascii = .error (.unexpected c)

namespace Agrees

variable {α β : Type} {cs ds : List Char} {ascii wide : Except ExprFault α}

theorem refl (answer : Except ExprFault α) : Agrees cs answer answer := .inl rfl

theorem mono (h : Agrees ds ascii wide) (hsub : ds ⊆ cs) : Agrees cs ascii wide :=
  h.imp_right fun ⟨c, hc, hmem, herror⟩ => ⟨c, hc, hsub hmem, herror⟩

/-- Readers that agree go on in agreement. -/
theorem bind (h : Agrees cs ascii wide) {f g : α → Except ExprFault β}
    (hnext : ∀ a, ascii = .ok a → Agrees cs (f a) (g a)) : Agrees cs (ascii.bind f) (wide.bind g) := by
  rcases h with rfl | ⟨c, hc, hmem, rfl⟩
  · cases wide with
    | error fault => exact refl _
    | ok a => exact hnext a rfl
  · exact .inr ⟨c, hc, hmem, rfl⟩

theorem map (h : Agrees cs ascii wide) (f : α → β) : Agrees cs (ascii.map f) (wide.map f) := by
  rcases h with rfl | ⟨c, hc, hmem, rfl⟩
  · exact refl _
  · exact .inr ⟨c, hc, hmem, rfl⟩

theorem eq_of_ok (h : Agrees cs ascii wide) {a : α} (ha : ascii = .ok a) : wide = .ok a := by
  rcases h with rfl | ⟨c, -, -, herror⟩
  · exact ha
  · rw [ha] at herror
    cases herror

theorem eq_of_not_mem (h : Agrees cs ascii wide) (hnone : ∀ c ∈ wideOpeners, c ∉ cs) : wide = ascii := by
  rcases h with heq | ⟨c, hc, hmem, -⟩
  · exact heq
  · exact absurd hmem (hnone c hc)

end Agrees

/-! ## What is left is part of the text -/

theorem Spells.suffix {sym : Symbols} {ls : List Lexeme} {cs rest : List Char} (h : Spells sym ls cs rest) :
    rest <:+ cs := by
  induction h with
  | nil _ => exact List.suffix_append _ _
  | cons _ _ _ ih => exact ih.trans ((List.suffix_append _ _).trans (List.suffix_append _ _))

theorem subset_of_readTier {sym : Symbols} {fuel : Nat} {tier : Tier} {cs : List Char} {p : Expr × List Char}
    (h : readTier sym fuel tier cs = .ok p) : p.2 ⊆ cs := by
  obtain ⟨ls, -, hspells⟩ := derives_of_readTier h
  exact hspells.suffix.subset

theorem trimStart_subset (cs : List Char) : Text.trimStart cs ⊆ cs := (List.dropWhile_suffix _).subset

theorem Tier.subset_of_operator? {tier : Tier} {cs : List Char} {q : BinaryOp × List Char}
    (h : tier.operator? (Text.trimStart cs) = some q) : q.2 ⊆ cs := by
  obtain ⟨l, -, hspells⟩ := spelled_of_operator? .english h
  exact List.Subset.trans hspells.suffix.subset (trimStart_subset cs)

theorem Tier.subset_of_leading? {tier : Tier} {cs rest : List Char}
    (h : tier.leading? (Text.trimStart cs) = some rest) : rest ⊆ cs := by
  obtain ⟨t, -, hspells⟩ := spelled_of_leading? .english h
  exact List.Subset.trans hspells.suffix.subset (trimStart_subset cs)

/-! ## Two readers -/

/-- Where an operand is due, the ASCII reader stops at a full-width opener. -/
theorem readAtom_wideOpener {c : Char} (hc : c ∈ wideOpeners) (tail : List Char) :
    closing? .english c = none ∧ readAtom .english c tail = .error (.unexpected c) := by
  simp only [wideOpeners, List.mem_cons, List.not_mem_nil, or_false] at hc
  rcases hc with rfl | rfl <;>
    simp [closing?, readAtom, Symbols.english, Symbols.chinese, Token.eat?, Text.dropPrefix?, Char.isDigit]

/-- At any other character the symbols make no difference. -/
theorem readAtom_of_not_wide {c : Char} (hc : c ∉ wideOpeners) (tail : List Char) :
    closing? .chinese c = closing? .english c ∧ readAtom .chinese c tail = readAtom .english c tail := by
  simp only [wideOpeners, List.mem_cons, List.not_mem_nil, or_false, not_or] at hc
  refine ⟨?_, ?_⟩
  · unfold closing?
    rw [if_neg hc.1]
    by_cases hbracket : c = '('
    · simp [hbracket]
    · simp [hbracket, Symbols.english]
  · unfold readAtom
    rw [if_neg hc.2]
    by_cases hquote : c = '"'
    · simp [hquote, Symbols.english, Symbols.chinese]
    · simp [hquote, Symbols.english, Symbols.chinese]

theorem readTier_primary_agrees {fuel : Nat}
    (ih : ∀ cs, Agrees cs (readTier .english fuel .disjunction cs) (readTier .chinese fuel .disjunction cs))
    (cs : List Char) :
    Agrees cs (readTier .english (fuel + 1) .primary cs) (readTier .chinese (fuel + 1) .primary cs) := by
  cases htrim : Text.trimStart cs with
  | nil =>
    rw [readTier_end_eq htrim, readTier_end_eq htrim]
    exact .refl _
  | cons c tail =>
    have hsub : c :: tail ⊆ cs := htrim ▸ trimStart_subset cs
    by_cases hc : c ∈ wideOpeners
    · obtain ⟨hclosing, hatom⟩ := readAtom_wideOpener hc tail
      rw [readTier_atom_eq htrim hclosing]
      exact .inr ⟨c, hc, hsub List.mem_cons_self, hatom⟩
    · obtain ⟨hclosing, hatom⟩ := readAtom_of_not_wide hc tail
      cases hclose : closing? .english c with
      | none =>
        rw [readTier_atom_eq htrim hclose, readTier_atom_eq htrim (hclosing.trans hclose), hatom]
        exact .refl _
      | some close =>
        rw [readTier_bracket_eq htrim hclose, readTier_bracket_eq htrim (hclosing.trans hclose)]
        exact ((ih tail).mono (List.Subset.trans (List.subset_cons_self c tail) hsub)).bind fun p _ => .refl _

theorem read_agrees (fuel : Nat) :
    (∀ tier cs, Agrees cs (readTier .english fuel tier cs) (readTier .chinese fuel tier cs)) ∧
    ∀ tier left cs, Agrees cs (readChain .english fuel tier left cs) (readChain .chinese fuel tier left cs) := by
  induction fuel with
  | zero =>
    refine ⟨?_, ?_⟩
    · intro tier cs
      simp only [readTier]
      exact .refl _
    · intro tier left cs
      simp only [readChain]
      exact .refl _
  | succ fuel ih =>
    obtain ⟨ihtier, ihchain⟩ := ih
    refine ⟨?_, ?_⟩
    · intro tier cs
      rcases tier.shape with ht | ht | rfl | rfl
      · rw [readTier_chain_eq ht, readTier_chain_eq ht]
        exact (ihtier _ cs).bind fun p hp => (ihchain tier p.1 p.2).mono (subset_of_readTier hp)
      · rw [readTier_lead_eq ht, readTier_lead_eq ht]
        cases hlead : tier.leading? (Text.trimStart cs) with
        | none => exact (ihtier _ _).mono (trimStart_subset cs)
        | some rest => exact ((ihtier _ rest).mono (Tier.subset_of_leading? hlead)).map _
      · rw [readTier_comparison_eq, readTier_comparison_eq]
        refine (ihtier .sum cs).bind fun p hp => ?_
        cases hop : Tier.comparison.operator? (Text.trimStart p.2) with
        | none => exact .refl _
        | some q =>
          have hsub : q.2 ⊆ cs := List.Subset.trans (Tier.subset_of_operator? hop) (subset_of_readTier hp)
          exact ((ihtier .sum q.2).mono hsub).map _
      · exact readTier_primary_agrees (ihtier .disjunction) cs
    · intro tier left cs
      rw [readChain_eq, readChain_eq]
      cases hop : tier.operator? (Text.trimStart cs) with
      | none => exact .refl _
      | some q =>
        have hq := Tier.subset_of_operator? hop
        refine ((ihtier _ q.2).mono hq).bind fun p hp => ?_
        exact (ihchain tier _ p.2).mono (List.Subset.trans (subset_of_readTier hp) hq)

theorem readOperand_agrees (cs : List Char) : Agrees cs (readOperand .english cs) (readOperand .chinese cs) :=
  (read_agrees (budget cs)).1 .disjunction cs

/-- Whether a text is an assignment depends on the reference symbol alone. -/
theorem readTop_cases (cs : List Char) :
    (∃ fault, ∀ sym : Symbols, sym.reference = '@' → readTop sym cs = .error fault) ∨
    (∀ sym : Symbols, sym.reference = '@' → readTop sym cs = readOperand sym cs) ∨
    ∃ name value, value ⊆ cs ∧ ∀ sym : Symbols, sym.reference = '@' →
      readTop sym cs = (readOperand sym value).map fun p => (.assign name p.1, p.2) := by
  cases cs with
  | nil => exact .inr (.inl fun sym _ => rfl)
  | cons c rest =>
    by_cases hc : c = '@'
    · cases hname : readName rest with
      | error fault => exact .inl ⟨fault, fun sym hsym => by simp [readTop, hsym, hc, hname]⟩
      | ok p =>
        obtain ⟨name, tail⟩ := p
        cases heat : Token.eat? (Text.trimStart tail) (.mark "=" ['=']) with
        | none => exact .inr (.inl fun sym hsym => by simp [readTop, hsym, hc, hname, heat])
        | some value =>
          obtain ⟨rfl, -⟩ := readName_eq_ok_iff.1 hname
          obtain ⟨text, after, hcut, -, rfl⟩ := (Token.eat?_eq_some_iff isExact_equals .english).1 heat
          have hafter : after ⊆ tail := by
            intro d hd
            exact trimStart_subset tail (hcut ▸ List.mem_append_right text hd)
          refine .inr (.inr ⟨name, Text.trimStart after, fun d hd => ?_, fun sym hsym => ?_⟩)
          · exact List.mem_cons_of_mem c (List.mem_append_right _ (hafter (trimStart_subset after hd)))
          · cases hread : readOperand sym (Text.trimStart after) <;>
              simp [readTop, hsym, hc, hname, heat, hread, Except.map]
    · exact .inr (.inl fun sym hsym => by simp [readTop, hsym, hc])

theorem readTop_agrees (cs : List Char) : Agrees cs (readTop .english cs) (readTop .chinese cs) := by
  obtain ⟨fault, h⟩ | h | ⟨name, value, hsub, h⟩ := readTop_cases cs
  · rw [h _ rfl, h _ rfl]
    exact .refl _
  · rw [h _ rfl, h _ rfl]
    exact readOperand_agrees cs
  · rw [h _ rfl, h _ rfl]
    exact ((readOperand_agrees value).mono hsub).map _

/-- The expression of a whole text, if only blanks follow it. -/
def whole (p : Expr × List Char) : Except ExprFault Expr :=
  if Text.trimStart p.2 = [] then .ok p.1 else .error (.trailing (String.ofList (Text.trimStart p.2)))

theorem readAll_eq (sym : Symbols) {cs : List Char} (hne : cs ≠ []) : readAll sym cs = (readTop sym cs).bind whole := by
  unfold readAll
  rw [if_neg (by simpa using hne)]
  cases readTop sym cs with
  | error fault => rfl
  | ok p => cases hrest : Text.trimStart p.2 <;> simp [Except.bind, whole, hrest]

theorem readAll_agrees (cs : List Char) : Agrees cs (readAll .english cs) (readAll .chinese cs) := by
  by_cases hne : cs = []
  · rw [hne]
    exact .refl _
  · rw [readAll_eq _ hne, readAll_eq _ hne]
    exact (readTop_agrees cs).bind fun p _ => .refl _

theorem parse_eq (sym : Symbols) (t : String) :
    parse sym t =
      (readAll sym (Text.trim t.toList)).mapError (.invalidExpr (String.ofList (Text.trim t.toList))) := by
  simp only [parse]
  cases readAll sym (Text.trim t.toList) <;> rfl

theorem trim_subset (cs : List Char) : Text.trim cs ⊆ cs :=
  List.Subset.trans (Text.trimEnd_prefix _).subset (trimStart_subset cs)

/-- **The full-width symbols extend the ASCII syntax conservatively**: what is read with the ASCII symbols is read as
the same tree with the full-width ones, and without full-width brackets and quotes in a text there is no difference,
in the tree or in the fault. -/
theorem parse_chinese_of_english (t : String) :
    (∀ e, parse .english t = .ok e → parse .chinese t = .ok e) ∧
    ((∀ c ∈ ['（', '）', '“', '”'], c ∉ t.toList) → parse .chinese t = parse .english t) := by
  have hagrees := readAll_agrees (Text.trim t.toList)
  refine ⟨fun e he => ?_, fun hnone => ?_⟩
  · rw [parse_eq_ok_iff] at he ⊢
    exact hagrees.eq_of_ok he
  · have hfree : ∀ c ∈ wideOpeners, c ∉ Text.trim t.toList := by
      intro c hc hmem
      have hsymbols : ∀ c ∈ wideOpeners, c ∈ ['（', '）', '“', '”'] := by decide
      exact hnone c (hsymbols c hc) (trim_subset _ hmem)
    rw [parse_eq, parse_eq, hagrees.eq_of_not_mem hfree]

set_option maxRecDepth 2000 in
theorem parse_chinese_quoted :
    parse .chinese "@x = (\"（“\" != @名) or not '”'" = .ok (.assign "x" (.binary .or
        (.binary .ne (.literal (.text "（“")) (.var "名")) (.not (.literal (.text "”"))))) ∧
      parse .chinese "(1 + @a" = parse .english "(1 + @a" ∧
      parse .english "(1 + @a" = .error (.invalidExpr "(1 + @a" (.missingBracket ')')) :=
  ⟨(parse_chinese_of_english "@x = (\"（“\" != @名) or not '”'").1 _ rfl,
    (parse_chinese_of_english "(1 + @a").2 (by decide), rfl⟩

end SceneScript.Expr
