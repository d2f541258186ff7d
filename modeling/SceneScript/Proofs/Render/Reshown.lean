import SceneScript.Proofs.Render.Shown

/-!
# Reading what is shown

An expression that has been read is shown in a text that the reader refuses, or reads as another expression, if a
`not` is an operand of a minus or of an operator that binds tighter.  Any other is read back.

    ¬ e.All TakesNot → readTier .english fuel tier (e.shown ++ rest) ≠ .ok r    (readTier_shown_ne)
    parse .english e.shown = .ok e ↔ e.All KeepsNot                  (parse_shown_iff)
-/

namespace SceneScript.Expr

/-! ## Where some `not` is not taken -/

/-- A text starts with `not` only at the tiers up to its own. -/
theorem Tier.negation_le_of_starts {tier : Tier} (h : tier.Starts .english 'n') : Tier.negation.cost ≤ tier.cost := by
  revert h
  cases tier <;> simp [Tier.Starts, Opens, Tier.leadingStarts, Tier.cost, Symbols.english, Char.isDigit]

theorem readTier_not {fuel : Nat} {tier : Tier} {cs : List Char} {r : Expr × List Char} (hcs : Text.trimStart cs = cs)
    (h : readTier .english fuel tier ("not".toList ++ ' ' :: cs) = .ok r) :
    ∃ fuel r, readTier .english fuel .negation cs = .ok r := by
  have hspelled : (Lexeme.word "not").Spelled .english "not".toList (' ' :: cs) := ⟨rfl, (breaks_space cs).not_name⟩
  have hmid := leading?_not (by simp) hspelled
  have htrim : Text.trimStart (' ' :: cs) = cs := (Text.trimStart_append Text.AllBlank.space cs).trans hcs
  rw [htrim] at hmid
  have hle := Tier.negation_le_of_starts (starts_of_readTier (.inl rfl) (by decide) h)
  exact exists_readTier_of_leading (.inl rfl) (.inl rfl) hle (.inr (by decide)) hmid h

theorem readTier_neg {fuel : Nat} {tier : Tier} {cs : List Char} {r : Expr × List Char} (hcs : Text.trimStart cs = cs)
    (h : readTier .english fuel tier ('-' :: cs) = .ok r) : ∃ fuel r, readTier .english fuel .sign cs = .ok r := by
  have hspelled : (Lexeme.mark "-").Spelled .english "-".toList cs := ⟨rfl, by simp⟩
  have hmid := leading?_neg hspelled
  rw [hcs] at hmid
  have hle : Tier.sign.cost ≤ tier.cost := by
    have hstarts := starts_of_readTier (.inl rfl) (by decide) h
    revert hstarts
    cases tier <;> simp [Tier.Starts, Opens, Tier.leadingStarts, Tier.cost, Symbols.english, Char.isDigit]
  exact exists_readTier_of_leading (.inl rfl) (.inr rfl) hle (.inr (by decide)) hmid h

theorem readTier_bracket {fuel : Nat} {tier : Tier} {cs : List Char} {r : Expr × List Char}
    (h : readTier .english fuel tier ('(' :: cs) = .ok r) :
    ∃ fuel r, readTier .english fuel .disjunction cs = .ok r := by
  have hclose : closing? .english '(' = some ')' := by decide
  exact exists_readTier_of_closing (.inl rfl) (.inl (by decide)) hclose h

/-- The operator behind an operand is found, and none of a stronger tier is. -/
theorem operator?_symbol (op : BinaryOp) {cs : List Char} (hcs : Text.trimStart cs = cs) :
    op.tier.operator? (Text.trimStart (' ' :: (op.symbol.toList ++ ' ' :: cs))) = some (op, cs) ∧
      op.tier.next.EndsBefore (' ' :: (op.symbol.toList ++ ' ' :: cs)) := by
  have hspelled : op.lexeme.Spelled .english op.symbol.toList (' ' :: cs) := spelled_operator op cs
  obtain ⟨c, tail, hsymbol, hc⟩ := Tier.start_of_spelled op.lexeme_mem hspelled
  have hfound := Tier.operator?_of_spelled op.lexeme_mem hspelled (by simp [startsWith])
  have htrim : Text.trimStart (' ' :: (op.symbol.toList ++ ' ' :: cs)) = op.symbol.toList ++ ' ' :: cs := by
    rw [← List.singleton_append, Text.trimStart_append Text.AllBlank.space, hsymbol, List.cons_append,
      Text.trimStart_cons (Tier.not_blank_of_mem_operatorStarts hc)]
  have hspace : Text.trimStart (' ' :: cs) = cs := (Text.trimStart_append Text.AllBlank.space cs).trans hcs
  rw [hspace] at hfound
  refine ⟨by rw [htrim, hfound], fun t ht => ?_⟩
  rw [htrim, hsymbol, List.cons_append]
  have hlt : t.cost < op.tier.cost := by
    have : op.tier.next.cost + 1 = op.tier.cost := by cases op <;> decide
    omega
  exact Tier.operator?_eq_none (Tier.operatorStarts_disjoint hlt hc) _

/-- After its left operand the reader of an operator goes on with the right one. -/
theorem exists_readTier_operand {sym : Symbols} (op : BinaryOp) {fuel : Nat} {cs : List Char} {r : Expr × List Char}
    (h : readTier sym fuel op.tier cs = .ok r) :
    ∃ fuel left rest, readTier sym fuel op.tier.next cs = .ok (left, rest) ∧
      ∀ {found mid}, op.tier.operator? (Text.trimStart rest) = some (found, mid) →
        ∃ fuel r, readTier sym fuel op.tier.next mid = .ok r := by
  cases fuel with
  | zero => simp [readTier] at h
  | succ fuel =>
    rcases op.tier.shape with ht | ht | ht | ht
    · obtain ⟨left, rest, hleft, hchain⟩ := (readTier_chain_eq_ok_iff ht).1 h
      refine ⟨fuel, left, rest, hleft, fun hfound => ?_⟩
      cases fuel with
      | zero => simp [readTier] at hleft
      | succ fuel =>
        rw [readChain_eq_ok_iff, hfound] at hchain
        obtain ⟨hnone, -⟩ | ⟨_, _, right, tail, ⟨rfl⟩, hright, -⟩ := hchain
        · cases hnone
        · exact ⟨fuel, _, hright⟩
    · cases op <;> simp [BinaryOp.tier] at ht
    · rw [ht] at h ⊢
      obtain ⟨left, rest, hleft, hcompared⟩ := readTier_comparison_eq_ok_iff.1 h
      refine ⟨fuel, left, rest, hleft, fun hfound => ?_⟩
      rw [hfound] at hcompared
      obtain ⟨hnone, -⟩ | ⟨_, _, right, tail, ⟨rfl⟩, hright, -⟩ := hcompared
      · cases hnone
      · exact ⟨fuel, _, hright⟩
    · cases op <;> simp [BinaryOp.tier] at ht

theorem trimStart_shown {e : Expr} (h : e.All IsExact) (rest : List Char) :
    Text.trimStart (e.shown.toList ++ rest) = e.shown.toList ++ rest := by
  obtain ⟨c, cs, hcs, hc⟩ := exists_head_shown h
  rw [hcs, List.cons_append, Text.trimStart_cons (hc.not_blank (.inl rfl))]

theorem exists_readTier_right_of_tier {left : Expr} (h : left.All IsExact) (htakes : left.All TakesNot) {op : BinaryOp}
    (hnot : op.IsTight → left.IsNot = false) {fuel : Nat} {tier : Tier} (hle : op.tier.cost ≤ tier.cost)
    {cs : List Char} (hcs : Text.trimStart cs = cs) {r : Expr × List Char}
    (hread : readTier .english fuel tier (left.shown.toList ++ ' ' :: (op.symbol.toList ++ ' ' :: cs)) = .ok r) :
    ∃ fuel r, readTier .english fuel op.tier.next cs = .ok r := by
  obtain ⟨hfound, hends⟩ := operator?_symbol op hcs
  -- the left operand is read up to the operator ...
  obtain ⟨other, hother⟩ := exists_shownAs h htakes
  have hderives := hother.derives.weaken op.tier.next (shownTier_le hnot)
  have hspells := spells_shown h (breaks_space (op.symbol.toList ++ ' ' :: cs))
  obtain ⟨fuel₁, tail, hleft, htail⟩ := (reads_of_derives (.inl rfl) hderives hspells).2 hends
  -- ... also within the whole
  obtain ⟨c, text, htext, hc⟩ := exists_head_shown h
  have hstarts := hc.weaken (Nat.le_trans (shownTier_le hnot) op.tier.cost_next_le)
  rw [htext, List.cons_append] at hread hleft
  obtain ⟨fuel₂, r', hread⟩ := exists_readTier_of_starts (.inl rfl) hle hstarts hread
  obtain ⟨fuel₃, left', rest, hleft', hright⟩ := exists_readTier_operand op hread
  have heq := readTier_mono hleft' (Nat.le_max_right fuel₁ fuel₃)
  rw [readTier_mono hleft (Nat.le_max_left fuel₁ fuel₃)] at heq
  obtain ⟨rfl, rfl⟩ := Prod.mk.inj (Except.ok.inj heq)
  rw [htail] at hright
  exact hright hfound

/-- After a text that can be read and an operator, the reader goes on with the right operand. -/
theorem exists_readTier_right {left : Expr} (h : left.All IsExact) (htakes : left.All TakesNot) {op : BinaryOp}
    {fuel : Nat} {tier : Tier} (hle : op.tier.cost ≤ tier.cost) {cs : List Char} (hcs : Text.trimStart cs = cs)
    {r : Expr × List Char}
    (hread : readTier .english fuel tier (left.shown.toList ++ ' ' :: (op.symbol.toList ++ ' ' :: cs)) = .ok r) :
    ∃ fuel r, readTier .english fuel op.tier.next cs = .ok r := by
  induction left generalizing fuel tier r with
  | not e ih =>
    by_cases hop : op.IsTight
    · -- the operator is taken into the operand of `not`
      rw [toList_shown_not, List.append_assoc, List.cons_append] at hread
      obtain ⟨fuel, r, hread⟩ := readTier_not (trimStart_shown h.2 _) hread
      have hle : op.tier.cost ≤ Tier.negation.cost := by
        revert hop
        cases op <;> decide
      exact ih h.2 htakes.2 hle hread
    · exact exists_readTier_right_of_tier h htakes (fun htight => absurd htight hop) hle hcs hread
  | literal | var | assign | binary | neg =>
    exact exists_readTier_right_of_tier h htakes (fun _ => rfl) hle hcs hread

theorem not_readTier_of_isNot {e : Expr} (hnot : e.IsNot = true) {tier : Tier} (htier : tier.cost < Tier.negation.cost)
    {fuel : Nat} {rest : List Char} {r : Expr × List Char} :
    readTier .english fuel tier (e.shown.toList ++ rest) ≠ .ok r := by
  intro h
  cases e with
  | not e =>
    rw [toList_shown_not] at h
    have := Tier.negation_le_of_starts (starts_of_readTier (.inl rfl) (by decide) h)
    omega
  | literal | var | assign | binary | neg => cases hnot

/-- A text in which some `not` is not taken is not read, whatever follows. -/
theorem readTier_shown_ne {e : Expr} (h : e.All IsExact) (htakes : ¬ e.All TakesNot) {fuel : Nat} {tier : Tier}
    {rest : List Char} {r : Expr × List Char} : readTier .english fuel tier (e.shown.toList ++ rest) ≠ .ok r := by
  induction e generalizing fuel tier rest r with
  | literal | var => exact absurd trivial htakes
  | assign name value _ => cases h.1.2
  | binary op left right ihleft ihright =>
    intro hread
    have hright := trimStart_shown h.2.2 (')' :: rest)
    rw [toList_shown_binary, List.cons_append] at hread
    obtain ⟨fuel, r, hread⟩ := readTier_bracket hread
    simp only [List.append_assoc, List.cons_append, List.nil_append] at hread
    by_cases hleft : left.All TakesNot
    · obtain ⟨fuel, r, hread⟩ := exists_readTier_right h.2.1 hleft (by cases op <;> decide) hright hread
      by_cases hall : right.All TakesNot
      · have hnode : ¬ TakesNot (.binary op left right) := fun hnode => htakes ⟨hnode, hleft, hall⟩
        obtain ⟨hop, hnot⟩ := Classical.not_imp.1 hnode
        refine not_readTier_of_isNot (Bool.not_eq_false _ ▸ hnot) ?_ hread
        revert hop
        cases op <;> decide
      · exact ihright h.2.2 hall hread
    · exact ihleft h.2.1 hleft hread
  | not e ih =>
    intro hread
    rw [toList_shown_not, List.append_assoc, List.cons_append] at hread
    obtain ⟨fuel, r, hread⟩ := readTier_not (trimStart_shown h.2 rest) hread
    exact ih h.2 (fun hall => htakes ⟨trivial, hall⟩) hread
  | neg e ih =>
    intro hread
    rw [toList_shown_neg, List.cons_append] at hread
    obtain ⟨fuel, r, hread⟩ := readTier_neg (trimStart_shown h.2 rest) hread
    by_cases hall : e.All TakesNot
    · have hnot : ¬ e.IsNot = false := fun hnode => htakes ⟨hnode, hall⟩
      exact not_readTier_of_isNot (Bool.not_eq_false _ ▸ hnot) (by decide) hread
    · exact ih h.2 hall hread

/-! ## Whole texts -/

/-- What is derived is readable. -/
theorem Derives.isReadable {sym : Symbols} {tier : Tier} {ls : List Lexeme} {e : Expr} (h : Derives sym tier ls e) :
    ∀ {cs rest : List Char}, Spells sym ls cs rest → e.All IsReadable := by
  induction h with
  | stronger _ _ ih => exact ih
  | chain _ _ _ _ ihleft ihright | comparison _ _ _ ihleft ihright =>
    intro cs rest hspells
    obtain ⟨mid, hleft, hmid⟩ := hspells.of_append
    obtain ⟨mid', -, hright⟩ := hmid.of_cons
    exact ⟨trivial, ihleft hleft, ihright hright⟩
  | not _ _ ih | neg _ ih =>
    intro cs rest hspells
    obtain ⟨mid, -, hmid⟩ := hspells.of_cons
    exact ⟨trivial, ih hmid⟩
  | bracket _ _ ih =>
    intro cs rest hspells
    obtain ⟨mid, -, hmid⟩ := hspells.of_cons
    obtain ⟨mid', hbody, -⟩ := hmid.of_append
    exact ih hbody
  | atom hatom =>
    intro cs rest hspells
    cases hspells with
    | cons _ hspelled _ =>
      cases hatom with
      | var name => exact ⟨hspelled.2.1, hspelled.2.2.1⟩
      | integer n =>
        have hn := hspelled.2.1
        show 0 ≤ n.toInt
        omega
      | text | yes | no | decimal => trivial

/-- What becomes of the text of an expression when it is read again. -/
def Reshown (e : Expr) : Prop :=
  (e.All TakesNot ∧ ∃ other, parse .english e.shown = .ok other ∧ (other = e ↔ e.All KeepsNot)) ∨
    (¬ e.All TakesNot ∧ ∀ other, parse .english e.shown ≠ .ok other)

theorem readOperand_of_readTop {c : Char} (hc : c ≠ '@') {cs : List Char} {r : Expr × List Char}
    (h : readTop .english (c :: cs) = .ok r) : readOperand .english (c :: cs) = .ok r := by
  have hne : c ≠ Symbols.english.reference := hc
  rwa [readTop, if_neg hne] at h

theorem reshown_operand {e : Expr} (h : e.All IsExact) : e.Reshown := by
  have htrim := (solid_shown h).trim_eq
  by_cases htakes : e.All TakesNot
  · obtain ⟨other, hother⟩ := exists_shownAs h htakes
    have hle : e.shownTier.cost ≤ Tier.disjunction.cost := Nat.le_trans (shownTier_le_negation e) (by decide)
    have hspells := spells_shown h breaks_nil
    rw [List.append_nil, ← htrim] at hspells
    have hparse := parse_of_derives (.inl rfl) hspells (.plain (hother.derives.weaken .disjunction hle))
    exact .inl ⟨htakes, other, hparse, hother.same_iff⟩
  · refine .inr ⟨htakes, fun other hparse => ?_⟩
    rw [parse_eq_ok_iff, readAll_eq_ok_iff, htrim] at hparse
    obtain ⟨-, rest, hread, -⟩ := hparse
    obtain ⟨c, cs, hcs, hc⟩ : ∃ c cs, e.shown.toList = c :: cs ∧ c ≠ '@' := by
      cases e with
      | literal | var => exact absurd trivial htakes
      | assign => cases h.1.2
      | binary => exact ⟨_, _, toList_shown_binary _ _ _, by decide⟩
      | not => exact ⟨'n', _, toList_shown_not _, by decide⟩
      | neg => exact ⟨_, _, toList_shown_neg _, by decide⟩
    rw [hcs] at hread
    have hoperand := readOperand_of_readTop hc hread
    rw [readOperand, ← hcs, ← List.append_nil e.shown.toList] at hoperand
    exact readTier_shown_ne h htakes hoperand

theorem toList_shown_assign (name : String) (value : Expr) :
    (assign name value).shown.toList = '@' :: (name.toList ++ (" = ".toList ++ value.shown.toList)) := by
  simp [shown]

theorem solid_shown_assign {name : String} (hname : IsName name) {value : Expr} (h : value.All IsExact) :
    Text.Solid (assign name value).shown.toList := by
  obtain ⟨c, cs, hcs, -⟩ := exists_head_shown h
  have hreference : Text.Solid ['@'] := Text.solid_of_forall (by decide)
  rw [toList_shown_assign, ← List.cons_append]
  exact (hreference.append hname.visible.solid).between (by simp) (solid_shown h) (by simp [hcs]) " = ".toList

theorem readOperand_of_readTop_assign {name : String} (hname : IsName name) {cs rest : List Char} {e : Expr}
    (hcs : Text.trimStart cs = cs)
    (h : readTop .english ('@' :: (name.toList ++ (" = ".toList ++ cs))) = .ok (e, rest)) :
    ∃ value, readOperand .english cs = .ok (value, rest) := by
  have hread : readName (name.toList ++ (" = ".toList ++ cs)) = .ok (name, " = ".toList ++ cs) :=
    readName_eq_ok_iff.2 ⟨rfl, hname.1, hname.2, (breaks_space _).not_name⟩
  have heat : (Token.mark "=" ['=']).eat? (Text.trimStart (" = ".toList ++ cs)) = some cs := by
    have htrim : Text.trimStart (' ' :: cs) = cs := (Text.trimStart_append Text.AllBlank.space cs).trans hcs
    exact (Token.eat?_eq_some_iff isExact_equals .english).2
      ⟨"=".toList, ' ' :: cs, rfl, ⟨rfl, by simp [startsWith]⟩, htrim.symm⟩
  have hreference : '@' = Symbols.english.reference := rfl
  rw [readTop, if_pos hreference, hread] at h
  simp only [heat] at h
  cases hvalue : readOperand .english cs with
  | error fault => simp [hvalue] at h
  | ok p =>
    simp only [hvalue, Except.ok.injEq, Prod.mk.injEq] at h
    exact ⟨p.1, by rw [← h.2]⟩

theorem reshown_assign {name : String} (hname : IsName name) {value : Expr} (h : value.All IsExact) :
    (assign name value).Reshown := by
  have htrim := (solid_shown_assign hname h).trim_eq
  by_cases htakes : value.All TakesNot
  · obtain ⟨other, hother⟩ := exists_shownAs h htakes
    have hle : value.shownTier.cost ≤ Tier.disjunction.cost := Nat.le_trans (shownTier_le_negation value) (by decide)
    have hspells := spells_shown h breaks_nil
    rw [List.append_nil] at hspells
    have hall : Spells .english (assign name value).shownLexemes (assign name value).shown.toList [] := by
      rw [toList_shown_assign]
      exact spells_assignment hname hspells
    rw [← htrim] at hall
    have hparse := parse_of_derives (.inl rfl) hall (.assign name (hother.derives.weaken .disjunction hle))
    refine .inl ⟨⟨trivial, htakes⟩, _, hparse, ?_⟩
    simp [All, KeepsNot, hother.same_iff]
  · refine .inr ⟨fun hall => htakes hall.2, fun other hparse => ?_⟩
    rw [parse_eq_ok_iff, readAll_eq_ok_iff, htrim, toList_shown_assign] at hparse
    obtain ⟨-, rest, hread, -⟩ := hparse
    have hstart := trimStart_shown h []
    rw [List.append_nil] at hstart
    obtain ⟨value', hoperand⟩ := readOperand_of_readTop_assign hname hstart hread
    rw [readOperand, ← List.append_nil value.shown.toList] at hoperand
    exact readTier_shown_ne h htakes hoperand

/-- **An expression that was read is shown so that it is read back exactly if no `not` in it is an operand of a
minus or of an operator that binds tighter.**  If a `not` stands behind a minus or to the right of such an operator
the text is refused; if it only stands to the left of one, the text is read as another expression. -/
theorem parse_shown_iff {t : String} {e : Expr} (ht : parse .english t = .ok e) (hplain : e.All IsPlain) :
    (parse .english e.shown = .ok e ↔ e.All KeepsNot) ∧
      ((∃ other, parse .english e.shown = .ok other) ↔ e.All TakesNot) := by
  have hreshown : e.Reshown := by
    obtain ⟨ls, hspells, htop⟩ := derives_of_parse ht
    generalize Text.trim t.toList = cs at hspells
    cases htop with
    | @assign name ls value hls =>
      cases hspells with
      | cons _ hl hrest =>
        obtain ⟨mid, -, hvalue⟩ := hrest.of_cons
        exact reshown_assign ⟨hl.2.1, hl.2.2.1⟩ (hplain.2.and (hls.isReadable hvalue))
    | plain hls => exact reshown_operand (hplain.and (hls.isReadable hspells))
  rcases hreshown with ⟨htakes, other, hparse, hsame⟩ | ⟨htakes, hparse⟩
  · rw [hparse]
    refine ⟨⟨fun h => hsame.1 (Except.ok.inj h), fun h => ?_⟩, fun _ => htakes, fun _ => ⟨other, rfl⟩⟩
    rw [hsame.2 h]
  · have hkeeps : ¬ e.All KeepsNot := fun h => htakes (h.imp fun _ => TakesNot.of_keepsNot)
    exact ⟨⟨fun h => absurd h (hparse e), fun h => absurd h hkeeps⟩, fun ⟨other, h⟩ => absurd h (hparse other),
      fun h => absurd h htakes⟩

/-- Each `not` is an operand of `and`, of `or` or of another `not`. -/
def checked : Expr :=
  .assign "ok" (.binary .and
    (.binary .le (.neg (.binary .add (.literal (.int 1)) (.var "x"))) (.literal (.int 2)))
    (.not (.binary .or (.not (.not (.var "y"))) (.binary .eq (.literal (.text "# :")) (.literal (.text "a'b"))))))

theorem parse_shown_checked :
    parse .english "@ok = -(1 + @x) <= 2 and !(not !@y or '# :' == \"a'b\")" = .ok checked ∧
      checked.All IsPlain ∧ checked.All KeepsNot ∧ parse .english checked.shown = .ok checked := by
  have hread : parse .english "@ok = -(1 + @x) <= 2 and !(not !@y or '# :' == \"a'b\")" = .ok checked := rfl
  have hplain : checked.All IsPlain := by decide
  have hkeeps : checked.All KeepsNot := by decide
  exact ⟨hread, hplain, hkeeps, (parse_shown_iff hread hplain).1.2 hkeeps⟩

/-- A `not` to the left of a comparison, to the right of one, and behind a minus. -/
theorem shown_misread :
    (parse .english "(not @a) == @b" = .ok (.binary .eq (.not (.var "a")) (.var "b")) ∧
      (Expr.binary .eq (.not (.var "a")) (.var "b")).shown = "(not @a == @b)" ∧
      parse .english "(not @a == @b)" = .ok (.not (.binary .eq (.var "a") (.var "b")))) ∧
    (parse .english "@a == (not @b)" = .ok (.binary .eq (.var "a") (.not (.var "b"))) ∧
      (Expr.binary .eq (.var "a") (.not (.var "b"))).shown = "(@a == not @b)" ∧
      parse .english "(@a == not @b)" = .error (.invalidExpr "(@a == not @b)" (.unexpected 'n'))) ∧
    parse .english "-(not @a)" = .ok (.neg (.not (.var "a"))) ∧
      (Expr.neg (.not (.var "a"))).shown = "-not @a" ∧
      parse .english "-not @a" = .error (.invalidExpr "-not @a" (.unexpected 'n')) := by
  refine ⟨⟨rfl, rfl, rfl⟩, ⟨rfl, rfl, rfl⟩, rfl, rfl, rfl⟩

end SceneScript.Expr
