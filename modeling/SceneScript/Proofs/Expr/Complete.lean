import SceneScript.Proofs.Expr.Follow

/-!
# What is derived is read

Every text that spells a derived expression is read as that expression, if no operator of its tier or a
stronger one follows.  Together with soundness, the reader accepts exactly the grammar.

    parse sym t = .ok e ↔ ∃ ls, Spells sym ls (trim t) [] ∧ DerivesTop sym ls e
                                                                     (parse_eq_ok_iff_derives)
-/

namespace SceneScript.Expr

variable {sym : Symbols}

/-! ## Atoms -/

theorem closing?_digit (hsym : sym.SparesDigits) {c : Char} (h : c.isDigit = true) : closing? sym c = none := by
  have hopen : c ≠ sym.openBracket := isDigit_ne h (hsym _ (by simp))
  have hround : c ≠ '(' := isDigit_ne h (by decide)
  rw [closing?, if_neg hround, if_neg hopen]

theorem closing?_eq_none (hsym : sym.InUse) {c : Char}
    (h : c ∈ ['@', '"', '\'', '“', 't', 'f'] ∨ c.isDigit = true) : closing? sym c = none := by
  rcases h with h | h
  · have hne : c ≠ '(' ∧ c ≠ '（' := by
      revert c
      decide
    rcases hsym with rfl | rfl <;> simp [closing?, Symbols.english, Symbols.chinese, hne]
  · exact closing?_digit hsym.sparesDigits h

theorem readAtom_digit (hsym : sym.SparesDigits) {c : Char} (h : c.isDigit = true) (cs : List Char) :
    readAtom sym c cs = readNumber (c :: cs) := by
  have hsymbols : c ≠ sym.reference ∧ c ≠ sym.openQuote :=
    ⟨isDigit_ne h (hsym _ (by simp)), isDigit_ne h (hsym _ (by simp))⟩
  have hne : ∀ d ∈ ['"', '\'', 't', 'f'], c ≠ d := by
    intro d hd
    exact isDigit_ne h ((by decide : ∀ d ∈ ['"', '\'', 't', 'f'], d.isDigit = false) d hd)
  have ht : 't' ≠ c := (hne 't' (by decide)).symm
  have hf : 'f' ≠ c := (hne 'f' (by decide)).symm
  simp [readAtom, hsymbols, hne, Token.eat?, Text.dropPrefix?, ht, hf, h]

theorem readAtom_quote (hsym : sym.InUse) {q : Char × Char} (hq : q ∈ sym.quotes) :
    q.1 ∈ ['@', '"', '\'', '“', 't', 'f'] ∧ ∀ cs, readAtom sym q.1 cs = readText q.2 cs := by
  simp only [Symbols.quotes, List.mem_cons, List.not_mem_nil, or_false] at hq
  rcases hsym with rfl | rfl <;> rcases hq with rfl | rfl | rfl <;>
    simp [readAtom, Symbols.english, Symbols.chinese]

theorem readAtom_of_spelled (hsym : sym.InUse) {l : Lexeme} {e : Expr} (h : IsAtom l e)
    {text tail : List Char} (hl : l.Spelled sym text tail) :
    ∃ c cs rest, text = c :: cs ∧ closing? sym c = none ∧
      readAtom sym c (cs ++ tail) = .ok (e, rest) ∧ Text.trimStart rest = Text.trimStart tail := by
  cases h with
  | var name =>
    obtain ⟨rfl, hname⟩ := hl
    refine ⟨_, _, tail, rfl, closing?_eq_none hsym ?_, ?_, rfl⟩
    · rcases hsym with rfl | rfl <;> decide
    · have := readName_eq_ok_iff.2 ⟨rfl, hname⟩
      simp [readAtom, this]
  | text s =>
    obtain ⟨q, hq, rfl, hclose⟩ := hl
    have hread : readText q.2 (s.toList ++ [q.2] ++ tail) = .ok (.literal (.text s), tail) :=
      readText_eq_ok_iff.2 ⟨s, rfl, by simp, hclose⟩
    obtain ⟨hstart, hquote⟩ := readAtom_quote hsym hq
    exact ⟨_, _, tail, rfl, closing?_eq_none hsym (.inl hstart), (hquote _).trans hread, rfl⟩
  | yes =>
    obtain ⟨rfl, hstop⟩ := hl
    refine ⟨'t', ['r', 'u', 'e'], Text.trimStart tail, rfl, closing?_eq_none hsym (by decide), ?_, by simp⟩
    rcases hsym with rfl | rfl <;>
      simp [readAtom, Symbols.english, Symbols.chinese, Token.eat?, Text.dropPrefix?, hstop]
  | no =>
    obtain ⟨rfl, hstop⟩ := hl
    refine ⟨'f', ['a', 'l', 's', 'e'], Text.trimStart tail, rfl, closing?_eq_none hsym (by decide), ?_, by simp⟩
    rcases hsym with rfl | rfl <;>
      simp [readAtom, Symbols.english, Symbols.chinese, Token.eat?, Text.dropPrefix?, hstop]
  | integer n =>
    obtain ⟨c, cs, rfl⟩ := List.exists_cons_of_ne_nil hl.1.1
    have hc := hl.1.2 c List.mem_cons_self
    exact ⟨c, cs, tail, rfl, closing?_eq_none hsym (.inr hc),
      (readAtom_digit hsym.sparesDigits hc _).trans (readNumber_integer hl), rfl⟩
  | decimal x =>
    have hl' := hl
    obtain ⟨whole, fraction, rfl, hwhole, -⟩ := hl'
    obtain ⟨c, cs, rfl⟩ := List.exists_cons_of_ne_nil hwhole.1
    have hc := hwhole.2 c List.mem_cons_self
    exact ⟨c, _, tail, rfl, closing?_eq_none hsym (.inr hc),
      (readAtom_digit hsym.sparesDigits hc _).trans (readNumber_decimal hl), rfl⟩

/-! ## Completeness -/

/-- No operator of the tier or a stronger one follows. -/
def Tier.EndsBefore (tier : Tier) (rest : List Char) : Prop :=
  ∀ t : Tier, t.cost ≤ tier.cost → t.operator? (Text.trimStart rest) = none

theorem Tier.EndsBefore.next {tier : Tier} {rest : List Char} (h : tier.EndsBefore rest) :
    tier.next.EndsBefore rest := by
  intro t ht
  exact h t (Nat.le_trans ht tier.cost_next_le)

/-- The reader reads `e` and what is left then is `rest`, up to blanks. -/
def ReadsUpTo (sym : Symbols) (tier : Tier) (cs : List Char) (e : Expr) (rest : List Char) : Prop :=
  ∃ fuel tail, readTier sym fuel tier cs = .ok (e, tail) ∧ Text.trimStart tail = Text.trimStart rest

/-- The reader comes to the chain that goes on after `e` with `rest`. -/
def ReadsChain (sym : Symbols) (tier : Tier) (cs : List Char) (e : Expr) (rest : List Char) : Prop :=
  ∀ (fuel : Nat) (r : Expr × List Char), readChain sym fuel tier e rest = .ok r →
    ∃ fuel, readTier sym fuel tier cs = .ok r

theorem readChain_congr {fuel : Nat} {tier : Tier} {e : Expr} {cs cs' : List Char}
    (h : Text.trimStart cs = Text.trimStart cs') :
    readChain sym fuel tier e cs = readChain sym fuel tier e cs' := by
  cases fuel with
  | zero => rfl
  | succ fuel => rw [readChain, readChain, h]

theorem ReadsChain.readsUpTo {tier : Tier} {cs rest : List Char} {e : Expr}
    (h : ReadsChain sym tier cs e rest) (hend : tier.EndsBefore rest) : ReadsUpTo sym tier cs e rest := by
  have hlast : readChain sym 1 tier e rest = .ok (e, Text.trimStart rest) :=
    readChain_eq_ok_iff.2 (.inl ⟨hend tier (Nat.le_refl _), rfl⟩)
  obtain ⟨fuel, hread⟩ := h _ _ hlast
  exact ⟨fuel, _, hread, by simp⟩

/-- A chain starts with an operand of the next tier. -/
theorem readsChain_of_next {tier : Tier} (ht : tier.IsChain) {cs rest : List Char} {e : Expr}
    (h : ReadsUpTo sym tier.next cs e rest) : ReadsChain sym tier cs e rest := by
  intro fuel r hrest
  obtain ⟨fuel', tail, hread, htail⟩ := h
  rw [readChain_congr htail.symm] at hrest
  exact ⟨max fuel' fuel + 1, (readTier_chain_eq_ok_iff ht).2 ⟨e, tail,
    readTier_mono hread (Nat.le_max_left _ _), readChain_mono hrest (Nat.le_max_right _ _)⟩⟩

/-- An operator and its right operand prolong a chain. -/
theorem ReadsChain.operator {tier : Tier} {cs mid tail rest : List Char} {a b : Expr} {op : BinaryOp}
    (h : ReadsChain sym tier cs a mid) (hop : tier.operator? (Text.trimStart mid) = some (op, tail))
    (hright : ReadsUpTo sym tier.next tail b rest) : ReadsChain sym tier cs (.binary op a b) rest := by
  intro fuel r hrest
  obtain ⟨fuel', tail', hread, htail⟩ := hright
  rw [readChain_congr htail.symm] at hrest
  have hchain : readChain sym (max fuel' fuel + 1) tier a mid = .ok r :=
    readChain_eq_ok_iff.2 (.inr ⟨op, tail, b, tail', hop, readTier_mono hread (Nat.le_max_left _ _),
      readChain_mono hrest (Nat.le_max_right _ _)⟩)
  exact h _ _ hchain

theorem ReadsUpTo.leading {tier : Tier} (ht : tier = .negation ∨ tier = .sign)
    {cs mid rest : List Char} {e : Expr} (hl : tier.leading? (Text.trimStart cs) = some mid)
    (h : ReadsUpTo sym tier mid e rest) : ReadsUpTo sym tier cs (tier.wrap e) rest := by
  obtain ⟨fuel, tail, hread, htail⟩ := h
  exact ⟨fuel + 1, tail, (readTier_lead_eq_ok_iff ht).2 (.inr ⟨mid, e, tail, hl, hread, rfl⟩), htail⟩

/-- An operand without a leading operator. -/
theorem ReadsUpTo.unled {tier : Tier} (ht : tier = .negation ∨ tier = .sign) {cs rest : List Char} {e : Expr}
    (hl : tier.leading? (Text.trimStart cs) = none)
    (h : ReadsUpTo sym tier.next (Text.trimStart cs) e rest) : ReadsUpTo sym tier cs e rest := by
  obtain ⟨fuel, tail, hread, htail⟩ := h
  exact ⟨fuel + 1, tail, (readTier_lead_eq_ok_iff ht).2 (.inl ⟨hl, hread⟩), htail⟩

/-- An operand without a comparison. -/
theorem ReadsUpTo.lone {cs rest : List Char} {e : Expr} (h : ReadsUpTo sym .sum cs e rest)
    (hend : Tier.comparison.operator? (Text.trimStart rest) = none) :
    ReadsUpTo sym .comparison cs e rest := by
  obtain ⟨fuel, tail, hread, htail⟩ := h
  rw [← htail] at hend
  exact ⟨fuel + 1, Text.trimStart tail,
    readTier_comparison_eq_ok_iff.2 ⟨e, tail, hread, .inl ⟨hend, rfl⟩⟩, by simp [htail]⟩

theorem ReadsUpTo.comparison {cs mid tail rest : List Char} {a b : Expr} {op : BinaryOp}
    (hleft : ReadsUpTo sym .sum cs a mid)
    (hop : Tier.comparison.operator? (Text.trimStart mid) = some (op, tail))
    (hright : ReadsUpTo sym .sum tail b rest) : ReadsUpTo sym .comparison cs (.binary op a b) rest := by
  obtain ⟨fuel, mid', hread, hmid'⟩ := hleft
  obtain ⟨fuel', rest', hread', hrest'⟩ := hright
  rw [← hmid'] at hop
  exact ⟨max fuel fuel' + 1, rest', readTier_comparison_eq_ok_iff.2 ⟨a, mid',
    readTier_mono hread (Nat.le_max_left _ _), .inr ⟨op, tail, b, rest', hop,
      readTier_mono hread' (Nat.le_max_right _ _), rfl⟩⟩, hrest'⟩

theorem ReadsUpTo.bracket {cs tail mid rest : List Char} {left right : Char} {e : Expr}
    (hclosing : closing? sym left = some right) (hcs : Text.trimStart cs = left :: tail)
    (h : ReadsUpTo sym .disjunction tail e mid) (hmid : Text.trimStart mid = right :: rest) :
    ReadsUpTo sym .primary cs e rest := by
  obtain ⟨fuel, mid', hread, hmid'⟩ := h
  exact ⟨fuel + 1, rest, readTier_primary_eq_ok_iff.2 ⟨left, tail, hcs,
    .inr ⟨right, e, mid', rest, hclosing, hread, hmid'.trans hmid, rfl⟩⟩, rfl⟩

/-- Where nothing is left to spell, only blanks are left. -/
theorem Spells.trimStart_nil {cs rest : List Char} (h : Spells sym [] cs rest) :
    Text.trimStart cs = Text.trimStart rest := by
  cases h with
  | nil hbs => exact Text.trimStart_append hbs rest

theorem brackets_facts (hsym : sym.InUse) {left right : Char} (h : (left, right) ∈ sym.brackets) :
    Text.isBlank left = false ∧ Text.isBlank right = false ∧ closing? sym left = some right ∧
      ∀ t : Tier, right ∉ t.operatorStarts := by
  have hall : ∀ t : Tier, ')' ∉ t.operatorStarts ∧ '）' ∉ t.operatorStarts := by
    intro t
    cases t <;> decide
  simp only [Symbols.brackets, List.mem_cons, List.not_mem_nil, or_false, Prod.mk.injEq] at h
  rcases hsym with rfl | rfl <;> rcases h with ⟨rfl, rfl⟩ | ⟨rfl, rfl⟩
  · exact ⟨by decide, by decide, by decide, fun t => (hall t).1⟩
  · exact ⟨by decide, by decide, by decide, fun t => (hall t).1⟩
  · exact ⟨by decide, by decide, by decide, fun t => (hall t).1⟩
  · exact ⟨by decide, by decide, by decide, fun t => (hall t).2⟩

/-- What a derived expression becomes: within a chain, the reader comes to what goes on after it; and where no
operator follows it is read whole. -/
theorem reads_of_derives (hsym : sym.InUse) {tier : Tier} {ls : List Lexeme} {e : Expr}
    (h : Derives sym tier ls e) : ∀ {cs rest : List Char}, Spells sym ls cs rest →
      (tier.IsChain → tier.next.EndsBefore rest → ReadsChain sym tier cs e rest) ∧
      (tier.EndsBefore rest → ReadsUpTo sym tier cs e rest) := by
  induction h with
  | @stronger tier ls e hne h ih =>
    intro cs rest hspells
    rcases tier.shape with ht | ht | rfl | rfl
    · have hchain : tier.next.EndsBefore rest → ReadsChain sym tier cs e rest :=
        fun hend => readsChain_of_next ht ((ih hspells).2 hend)
      exact ⟨fun _ => hchain, fun hend => (hchain hend.next).readsUpTo hend⟩
    · refine ⟨fun hchain => ?_, fun hend => ?_⟩
      · rcases ht with rfl | rfl <;> simp [Tier.IsChain] at hchain
      · obtain ⟨c, tail, htrim, hc, hspells'⟩ := h.spells_head hsym hspells
        refine ReadsUpTo.unled ht ?_ ?_ <;> rw [htrim]
        · exact Tier.leading?_eq_none hsym hc tail
        · exact (ih hspells').2 hend.next
    · refine ⟨fun hchain => by simp [Tier.IsChain] at hchain, fun hend => ?_⟩
      exact ReadsUpTo.lone ((ih hspells).2 hend.next) (hend .comparison (Nat.le_refl _))
    · exact absurd rfl hne
  | @chain tier ls ms l op a b ht _ hop hright ihleft ihright =>
    intro cs rest hspells
    obtain ⟨mid, hleft, hmid⟩ := hspells.of_append
    obtain ⟨⟨tail, hfound, hms⟩, hstronger⟩ := hright.operator?_eq hsym hop hmid
    have hlt : tier.next.cost < tier.cost := by
      rcases ht.shape with rfl | rfl | rfl | rfl <;> decide
    have hchain : tier.next.EndsBefore rest → ReadsChain sym tier cs (.binary op a b) rest := by
      intro hend
      have hfirst := (ihleft hleft).1 ht fun t ht => hstronger t (Nat.lt_of_le_of_lt ht hlt)
      exact hfirst.operator hfound ((ihright hms).2 hend)
    exact ⟨fun _ => hchain, fun hend => (hchain hend.next).readsUpTo hend⟩
  | @comparison ls ms l op a b _ hop hright ihleft ihright =>
    intro cs rest hspells
    refine ⟨fun hchain => by simp [Tier.IsChain] at hchain, fun hend => ?_⟩
    obtain ⟨mid, hleft, hmid⟩ := hspells.of_append
    obtain ⟨⟨tail, hfound, hms⟩, hstronger⟩ := hright.operator?_eq hsym hop hmid
    have hfirst := (ihleft hleft).2 fun t ht => hstronger t (Nat.lt_of_le_of_lt ht (by decide))
    exact hfirst.comparison hfound ((ihright hms).2 hend.next)
  | @not l ls e hl h ih =>
    intro cs rest hspells
    refine ⟨fun hchain => by simp [Tier.IsChain] at hchain, fun hend => ?_⟩
    obtain ⟨text, tail, hspelled, hls, htrim⟩ := hspells.trimStart_cons fun hspelled => by
      simp only [List.mem_cons, List.not_mem_nil, or_false] at hl
      rcases hl with rfl | rfl
      · exact ⟨'n', _, hspelled.1, by decide⟩
      · exact ⟨'!', _, hspelled.1, by decide⟩
    obtain ⟨c, tail', htail, -, hspells'⟩ := h.spells_head hsym hls
    refine ReadsUpTo.leading (.inl rfl) ?_ ((ih hspells').2 hend)
    rw [htrim, leading?_not hl hspelled, htail]
  | @neg ls e h ih =>
    intro cs rest hspells
    refine ⟨fun hchain => by simp [Tier.IsChain] at hchain, fun hend => ?_⟩
    obtain ⟨text, tail, hspelled, hls, htrim⟩ := hspells.trimStart_cons fun hspelled =>
      ⟨'-', _, hspelled.1, by decide⟩
    obtain ⟨c, tail', htail, -, hspells'⟩ := h.spells_head hsym hls
    refine ReadsUpTo.leading (.inr rfl) ?_ ((ih hspells').2 hend)
    rw [htrim, leading?_neg hspelled, htail]
  | @bracket left right ls e hb _ ih =>
    intro cs rest hspells
    refine ⟨fun hchain => by simp [Tier.IsChain] at hchain, fun _ => ?_⟩
    obtain ⟨hleft, hright, hclosing, hstarts⟩ := brackets_facts hsym hb
    obtain ⟨text, tail, hopen, htail, htrim⟩ :=
      hspells.trimStart_cons fun hspelled => ⟨left, [], hspelled, hleft⟩
    obtain ⟨mid, hbody, hmid⟩ := htail.of_append
    obtain ⟨text', tail', hclose, hrest, htrim'⟩ :=
      hmid.trimStart_cons fun hspelled => ⟨right, [], hspelled, hright⟩
    obtain rfl : text = [left] := hopen
    obtain rfl : text' = [right] := hclose
    have hend : Tier.disjunction.EndsBefore mid := by
      intro t _
      rw [htrim']
      exact Tier.operator?_eq_none (hstarts t) _
    obtain ⟨fuel, rest', hread, hrest'⟩ := ReadsUpTo.bracket hclosing htrim ((ih hbody).2 hend) htrim'
    exact ⟨fuel, rest', hread, hrest'.trans hrest.trimStart_nil⟩
  | @atom l e h =>
    intro cs rest hspells
    refine ⟨fun hchain => by simp [Tier.IsChain] at hchain, fun _ => ?_⟩
    obtain ⟨text, tail, hspelled, hrest, htrim⟩ := hspells.trimStart_cons fun hspelled => by
      obtain ⟨c, t, htext, hc⟩ := h.opens hspelled
      exact ⟨c, t, htext, hc.not_blank hsym⟩
    obtain ⟨c, t, rest', rfl, hclosing, hread, hrest'⟩ := readAtom_of_spelled hsym h hspelled
    refine ⟨1, rest', readTier_primary_eq_ok_iff.2 ⟨c, t ++ tail, htrim, .inl ⟨hclosing, hread⟩⟩, ?_⟩
    rw [hrest']
    exact hrest.trimStart_nil

theorem readOperand_of_derives (hsym : sym.InUse) {ls : List Lexeme} {e : Expr}
    (h : Derives sym .disjunction ls e) {cs : List Char} (hspells : Spells sym ls cs []) :
    ∃ rest, readOperand sym cs = .ok (e, rest) ∧ Text.trimStart rest = [] := by
  have hend : Tier.disjunction.EndsBefore [] := fun t _ => t.operator?_nil
  obtain ⟨fuel, rest, hread, hrest⟩ := (reads_of_derives hsym h hspells).2 hend
  exact ⟨rest, readOperand_of_readTier hread, hrest⟩

/-! ## Whole texts -/

theorem reference_facts (hsym : sym.InUse) :
    Text.isBlank sym.reference = false ∧ closing? sym sym.reference = none ∧
      ∀ t : Tier, t.Starts sym sym.reference := by
  refine ⟨?_, closing?_eq_none hsym ?_, fun t => .inl (by simp [Opens])⟩ <;>
    rcases hsym with rfl | rfl <;> decide

/-- After the reference symbol there must be a name. -/
theorem readName_of_readTier (hsym : sym.InUse) {fuel : Nat} {tier : Tier} {cs : List Char}
    {r : Expr × List Char} (h : readTier sym fuel tier (sym.reference :: cs) = .ok r) :
    ∃ name rest, readName cs = .ok (name, rest) := by
  obtain ⟨hblank, hclosing, hstarts⟩ := reference_facts hsym
  have hle : Tier.primary.cost ≤ tier.cost := by cases tier <;> decide
  obtain ⟨fuel, r, hread⟩ := exists_readTier_of_starts hsym hle (hstarts .primary) h
  cases fuel with
  | zero => simp [readTier] at hread
  | succ fuel =>
    obtain ⟨c, tail, hcs, hatom⟩ := readTier_primary_eq_ok_iff.1 hread
    rw [Text.trimStart_cons hblank] at hcs
    obtain ⟨rfl, rfl⟩ := List.cons.inj hcs
    obtain ⟨-, hatom⟩ | ⟨_, _, _, _, h, -⟩ := hatom
    · cases hname : readName cs with
      | error fault => simp [readAtom, hname] at hatom
      | ok p => exact ⟨p.1, p.2, rfl⟩
    · rw [hclosing] at h
      cases h

theorem isExact_equals : (Token.mark "=" ['=']).IsExact := by simp [Token.IsExact]

theorem derives_of_readTop {cs rest : List Char} {e : Expr} (h : readTop sym cs = .ok (e, rest)) :
    ∃ ls, DerivesTop sym ls e ∧ Spells sym ls cs rest := by
  have hplain : readOperand sym cs = .ok (e, rest) → ∃ ls, DerivesTop sym ls e ∧ Spells sym ls cs rest := by
    intro h
    obtain ⟨ls, hls, hspells⟩ := derives_of_readTier h
    exact ⟨ls, .plain hls, hspells⟩
  unfold readTop at h
  split at h
  · exact hplain h
  split at h
  · rename_i c cs hc
    split at h
    · cases h
    · rename_i name tail hname
      split at h
      · exact hplain h
      · rename_i mid hmid
        split at h
        · cases h
        · rename_i value rest' hvalue
          obtain ⟨rfl, rfl⟩ : _ ∧ _ := by simpa using h
          obtain ⟨rfl, hne, hchars, hstop⟩ := readName_eq_ok_iff.1 hname
          have hl : (Lexeme.name name).Spelled sym (c :: name.toList) tail :=
            ⟨by rw [hc], hne, hchars, hstop⟩
          obtain ⟨text, after, hcut, hl', rfl⟩ := (Token.eat?_eq_some_iff isExact_equals sym).1 hmid
          have hequals : Spells sym [.mark "="] (Text.trimStart tail) (Text.trimStart after) := by
            rw [hcut]
            exact (Spells.single hl').trimRest
          obtain ⟨ls, hls, hspells⟩ := derives_of_readTier hvalue
          exact ⟨_, .assign name hls, (Spells.single hl).trimRest.append (hequals.append hspells)⟩
  · exact hplain h

/-- A name before the sign of an assignment is read alone. -/
theorem eat?_equals_eq_none (hsym : sym.InUse) {name : String} {cs tail rest : List Char} {e : Expr}
    (hname : readName cs = .ok (name, tail))
    (hread : readOperand sym (sym.reference :: cs) = .ok (e, rest)) (hrest : Text.trimStart rest = []) :
    (Token.mark "=" ['=']).eat? (Text.trimStart tail) = none := by
  rw [Option.eq_none_iff_forall_not_mem]
  intro mid hmid
  obtain ⟨text, after, hcut, ⟨rfl, hstop⟩, -⟩ := (Token.eat?_eq_some_iff isExact_equals sym).1 hmid
  obtain ⟨rfl, hne, hchars, hend⟩ := readName_eq_ok_iff.1 hname
  have hl : (Lexeme.name name).Spelled sym (sym.reference :: name.toList) tail := ⟨rfl, hne, hchars, hend⟩
  have hvar : Derives sym .disjunction [.name name] (.var name) :=
    (Derives.atom (.var name)).weaken .disjunction (by decide)
  have hbefore : Tier.disjunction.EndsBefore tail := by
    intro t _
    rw [hcut]
    exact t.operator?_equals (hstop (.inl rfl))
  obtain ⟨fuel, tail', hread', htail'⟩ := (reads_of_derives hsym hvar (Spells.single hl)).2 hbefore
  have := readOperand_of_readTier hread'
  rw [List.cons_append, hread] at this
  obtain ⟨-, rfl⟩ : _ ∧ _ := by simpa using this
  rw [hrest, hcut] at htail'
  cases htail'

theorem readTop_of_derives (hsym : sym.InUse) {ls : List Lexeme} {e : Expr} (h : DerivesTop sym ls e)
    {cs : List Char} (hspells : Spells sym ls cs []) (htrim : Text.trimStart cs = cs) :
    ∃ rest, readTop sym cs = .ok (e, rest) ∧ Text.trimStart rest = [] := by
  cases h with
  | @assign name ls value hls =>
    obtain ⟨text, tail, ⟨rfl, hname⟩, htail, hcs⟩ := hspells.trimStart_cons fun hl =>
      ⟨_, _, hl.1, (reference_facts hsym).1⟩
    obtain ⟨text, after, hl, hafter, hcut⟩ := htail.trimStart_cons fun hl => ⟨'=', [], hl.1, by decide⟩
    obtain ⟨c, after', htrim', -, hspells'⟩ := hls.spells_head hsym hafter
    obtain ⟨rest, hread, hrest⟩ := readOperand_of_derives hsym hls hspells'
    have heat : (Token.mark "=" ['=']).eat? (Text.trimStart tail) = some (c :: after') :=
      (Token.eat?_eq_some_iff isExact_equals sym).2 ⟨text, after, hcut, hl, htrim'.symm⟩
    rw [htrim] at hcs
    refine ⟨rest, ?_, hrest⟩
    simp [hcs, readTop, readName_eq_ok_iff.2 ⟨rfl, hname⟩, heat, hread]
  | plain h =>
    obtain ⟨rest, hread, hrest⟩ := readOperand_of_derives hsym h hspells
    refine ⟨rest, ?_, hrest⟩
    unfold readTop
    cases cs with
    | nil => exact hread
    | cons c cs =>
      by_cases hc : c = sym.reference
      · subst hc
        obtain ⟨name, tail, hname⟩ := readName_of_readTier hsym hread
        simp [hname, eat?_equals_eq_none hsym hname hread hrest, hread]
      · simp [hc, hread]

theorem DerivesTop.length_lt {ls : List Lexeme} {e : Expr} (h : DerivesTop sym ls e)
    {cs rest : List Char} (hspells : Spells sym ls cs rest) : rest.length < cs.length := by
  cases h with
  | assign name _ => exact hspells.length_lt fun hl => by simp [hl.1]
  | plain h => exact h.length_lt hspells

theorem readAll_eq_ok_iff {cs : List Char} {e : Expr} :
    readAll sym cs = .ok e ↔
      cs ≠ [] ∧ ∃ rest, readTop sym cs = .ok (e, rest) ∧ Text.trimStart rest = [] := by
  unfold readAll
  by_cases hcs : cs = []
  · simp [hcs]
  · rw [if_neg (by simpa using hcs)]
    cases readTop sym cs with
    | error fault => simp
    | ok p =>
      obtain ⟨e', rest⟩ := p
      cases hrest : Text.trimStart rest <;> simp [hcs, hrest, and_assoc]

theorem parse_eq_ok_iff {t : String} {e : Expr} :
    Expr.parse sym t = .ok e ↔ readAll sym (Text.trim t.toList) = .ok e := by
  simp only [Expr.parse]
  cases readAll sym (Text.trim t.toList) <;> simp

theorem derives_of_parse {t : String} {e : Expr} (h : Expr.parse sym t = .ok e) :
    ∃ ls, Spells sym ls (Text.trim t.toList) [] ∧ DerivesTop sym ls e := by
  rw [parse_eq_ok_iff, readAll_eq_ok_iff] at h
  obtain ⟨-, rest, hread, hrest⟩ := h
  obtain ⟨ls, hls, hspells⟩ := derives_of_readTop hread
  exact ⟨ls, hrest ▸ hspells.trimRest, hls⟩

theorem parse_of_derives (hsym : sym.InUse) {t : String} {e : Expr} {ls : List Lexeme}
    (hspells : Spells sym ls (Text.trim t.toList) []) (h : DerivesTop sym ls e) :
    Expr.parse sym t = .ok e := by
  rw [parse_eq_ok_iff, readAll_eq_ok_iff]
  have hlt := h.length_lt hspells
  exact ⟨List.length_pos_iff.1 hlt, readTop_of_derives hsym h hspells (Text.trimStart_trim _)⟩

/-- **The reader accepts exactly the grammar**, and gives the tree that the grammar gives. -/
theorem parse_eq_ok_iff_derives (hsym : sym.InUse) (t : String) (e : Expr) :
    Expr.parse sym t = .ok e ↔
      ∃ ls, Spells sym ls (Text.trim t.toList) [] ∧ DerivesTop sym ls e := by
  constructor
  · exact derives_of_parse
  · rintro ⟨ls, hspells, hls⟩
    exact parse_of_derives hsym hspells hls

set_option maxRecDepth 2000 in
theorem derives_assignment :
    Symbols.chinese.InUse ∧ ∃ ls,
      Spells .chinese ls (Text.trim " @x = （1 - 2 - -@y）*3<=@z or not@b".toList) [] ∧
      DerivesTop .chinese ls (.assign "x" (.binary .or
        (.binary .le
          (.binary .mul
            (.binary .sub (.binary .sub (.literal (.int 1)) (.literal (.int 2))) (.neg (.var "y")))
            (.literal (.int 3)))
          (.var "z"))
        (.not (.var "b")))) := by
  have hsym : Symbols.chinese.InUse := .inr rfl
  exact ⟨hsym, (parse_eq_ok_iff_derives hsym " @x = （1 - 2 - -@y）*3<=@z or not@b" _).1 rfl⟩

end SceneScript.Expr
