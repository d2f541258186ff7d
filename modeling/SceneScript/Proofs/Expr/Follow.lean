import SceneScript.Proofs.Expr.Budget

/-!
# First characters

The reader decides by what a text starts with.  For the symbols in use the first characters of operands, of
leading operators and of the operators of each tier are different, so that the reader finds the lexeme
that stands there and no other.
-/

namespace SceneScript

/-- One of the two sets of symbols. -/
def Symbols.InUse (sym : Symbols) : Prop := sym = .english ∨ sym = .chinese

/-- No digit stands before a name or opens a bracket or a quote. -/
def Symbols.SparesDigits (sym : Symbols) : Prop :=
  ∀ c ∈ [sym.reference, sym.openBracket, sym.openQuote], c.isDigit = false

instance (sym : Symbols) : Decidable sym.SparesDigits :=
  inferInstanceAs (Decidable (∀ c ∈ [sym.reference, sym.openBracket, sym.openQuote], c.isDigit = false))

theorem Symbols.InUse.sparesDigits {sym : Symbols} (h : sym.InUse) : sym.SparesDigits := by
  rcases h with rfl | rfl <;> decide

namespace Expr

variable {sym : Symbols}

theorem isDigit_ne {c d : Char} (hc : c.isDigit = true) (hd : d.isDigit = false) : c ≠ d := by
  rintro rfl
  rw [hc] at hd
  cases hd

theorem isBlank_eq_false_of_isDigit {c : Char} (h : c.isDigit = true) : Text.isBlank c = false := by
  have hc := Char.isDigit_iff_toNat.1 h
  simp only [Text.isBlank]
  have h0 : '0'.toNat = 48 := rfl
  have h9 : '9'.toNat = 57 := rfl
  simp only [Bool.or_eq_false_iff, Bool.and_eq_false_iff, decide_eq_false_iff_not, beq_eq_false_iff_ne]
  omega

/-! ## Operands -/

/-- A primary expression may start with the character. -/
def Opens (sym : Symbols) (c : Char) : Prop :=
  c ∈ [sym.reference, '"', '\'', sym.openQuote, '(', sym.openBracket, 't', 'f'] ∨ c.isDigit = true

/-- What the leading operators of the tier, and of the stronger ones, start with. -/
def Tier.leadingStarts : Tier → List Char
  | disjunction | conjunction | negation => ['n', '!', '-']
  | comparison | sum | product | sign => ['-']
  | primary => []

/-- An expression of the tier may start with the character. -/
def Tier.Starts (sym : Symbols) (tier : Tier) (c : Char) : Prop := Opens sym c ∨ c ∈ tier.leadingStarts

theorem Tier.Starts.weaken {stronger tier : Tier} (hle : stronger.cost ≤ tier.cost) {c : Char}
    (h : stronger.Starts sym c) : tier.Starts sym c := by
  refine h.imp_right ?_
  revert hle
  cases stronger <;> cases tier <;> simp +contextual [cost, leadingStarts]

theorem Opens.forall (hsym : sym.InUse) {P : Char → Prop}
    (hsymbols : ∀ c ∈ ['@', '"', '\'', '“', '(', '（', 't', 'f'], P c)
    (hdigit : ∀ c, c.isDigit = true → P c) {c : Char} (h : Opens sym c) : P c := by
  rcases h with h | h
  · apply hsymbols
    rcases hsym with rfl | rfl <;> revert c <;> decide
  · exact hdigit c h

theorem Opens.not_blank (hsym : sym.InUse) {c : Char} (h : Opens sym c) : Text.isBlank c = false :=
  h.forall hsym (by decide) fun _ => isBlank_eq_false_of_isDigit

theorem Opens.ne (hsym : sym.InUse) {c d : Char} (h : Opens sym c) (hd : d ∈ ['=', 'n', '!', '-']) :
    c ≠ d := by
  refine h.forall hsym (P := fun c => ∀ d ∈ ['=', 'n', '!', '-'], c ≠ d) (by decide) ?_ d hd
  intro c hc d hd
  exact isDigit_ne hc ((by decide : ∀ d ∈ ['=', 'n', '!', '-'], d.isDigit = false) d hd)

theorem Tier.Starts.not_blank (hsym : sym.InUse) {tier : Tier} {c : Char} (h : tier.Starts sym c) :
    Text.isBlank c = false := by
  rcases h with h | h
  · exact h.not_blank hsym
  · cases tier <;> revert c <;> decide

theorem Tier.Starts.ne_equals (hsym : sym.InUse) {tier : Tier} {c : Char} (h : tier.Starts sym c) :
    c ≠ '=' := by
  rcases h with h | h
  · exact h.ne hsym (by simp)
  · cases tier <;> revert c <;> decide

theorem IsAtom.opens {l : Lexeme} {e : Expr} (h : IsAtom l e) {text tail : List Char}
    (hl : l.Spelled sym text tail) : ∃ c cs, text = c :: cs ∧ Opens sym c := by
  cases h with
  | var name => exact ⟨_, _, hl.1, by simp [Opens]⟩
  | text s =>
    obtain ⟨q, hq, rfl, -⟩ := hl
    refine ⟨_, _, rfl, .inl ?_⟩
    simp only [Symbols.quotes, List.mem_cons, List.not_mem_nil, or_false] at hq
    rcases hq with rfl | rfl | rfl <;> simp
  | yes => exact ⟨'t', _, hl.1, by simp [Opens]⟩
  | no => exact ⟨'f', _, hl.1, by simp [Opens]⟩
  | integer n =>
    obtain ⟨c, cs, rfl⟩ := List.exists_cons_of_ne_nil hl.1.1
    exact ⟨c, cs, rfl, .inr (hl.1.2 c List.mem_cons_self)⟩
  | decimal x =>
    obtain ⟨whole, fraction, rfl, hwhole, -⟩ := hl
    obtain ⟨c, cs, rfl⟩ := List.exists_cons_of_ne_nil hwhole.1
    exact ⟨c, _, rfl, .inr (hwhole.2 c List.mem_cons_self)⟩

theorem Derives.head {tier : Tier} {ls : List Lexeme} {e : Expr}
    (h : Derives sym tier ls e) :
    ∃ l ms, ls = l :: ms ∧ ∀ {text tail}, l.Spelled sym text tail →
      ∃ c cs, text = c :: cs ∧ tier.Starts sym c := by
  induction h with
  | stronger _ _ ih =>
    obtain ⟨l, ms, rfl, hl⟩ := ih
    refine ⟨l, ms, rfl, fun h => ?_⟩
    obtain ⟨c, cs, htext, hc⟩ := hl h
    exact ⟨c, cs, htext, hc.weaken (Tier.cost_next_le _)⟩
  | chain _ _ _ _ ih _ =>
    obtain ⟨l, ms, rfl, hl⟩ := ih
    exact ⟨l, _, List.cons_append, hl⟩
  | comparison _ _ _ ih _ =>
    obtain ⟨l, ms, rfl, hl⟩ := ih
    exact ⟨l, _, List.cons_append, fun h => hl h⟩
  | not hl _ _ =>
    refine ⟨_, _, rfl, ?_⟩
    simp only [List.mem_cons, List.not_mem_nil, or_false] at hl
    rcases hl with rfl | rfl
    · exact fun h => ⟨'n', _, h.1, .inr (by decide)⟩
    · exact fun h => ⟨'!', _, h.1, .inr (by decide)⟩
  | neg _ _ => exact ⟨_, _, rfl, fun h => ⟨'-', _, h.1, .inr (by decide)⟩⟩
  | bracket hb _ _ =>
    refine ⟨_, _, rfl, fun h => ⟨_, _, h, .inl (.inl ?_)⟩⟩
    simp only [Symbols.brackets, List.mem_cons, List.not_mem_nil, or_false, Prod.mk.injEq] at hb
    rcases hb with ⟨rfl, -⟩ | ⟨rfl, -⟩ <;> simp
  | atom h =>
    refine ⟨_, _, rfl, fun hl => ?_⟩
    obtain ⟨c, cs, htext, hc⟩ := h.opens hl
    exact ⟨c, cs, htext, .inl hc⟩

theorem Spells.trimStart_cons {l : Lexeme} {ls : List Lexeme} {cs rest : List Char}
    (h : Spells sym (l :: ls) cs rest)
    (hl : ∀ {text tail}, l.Spelled sym text tail → ∃ c t, text = c :: t ∧ Text.isBlank c = false) :
    ∃ text tail, l.Spelled sym text tail ∧ Spells sym ls tail rest ∧ Text.trimStart cs = text ++ tail := by
  cases h with
  | cons hbs hspelled hls =>
    obtain ⟨c, t, rfl, hc⟩ := hl hspelled
    exact ⟨_, _, hspelled, hls, by rw [Text.trimStart_append hbs, List.cons_append, Text.trimStart_cons hc]⟩

/-- Where an expression stands, after blanks. -/
theorem Derives.spells_head (hsym : sym.InUse) {tier : Tier} {ls : List Lexeme} {e : Expr}
    (h : Derives sym tier ls e) {cs rest : List Char} (hspells : Spells sym ls cs rest) :
    ∃ c tail, Text.trimStart cs = c :: tail ∧ tier.Starts sym c ∧ Spells sym ls (c :: tail) rest := by
  obtain ⟨l, ms, rfl, hl⟩ := h.head
  obtain ⟨text, tail, hspelled, hms, htrim⟩ := hspells.trimStart_cons fun h => by
    obtain ⟨c, t, htext, hc⟩ := hl h
    exact ⟨c, t, htext, hc.not_blank hsym⟩
  obtain ⟨c, t, rfl, hc⟩ := hl hspelled
  exact ⟨c, t ++ tail, htrim, hc, .cons Text.AllBlank.nil hspelled hms⟩

/-- A sign before an operand is not taken together with what follows. -/
theorem Derives.startsWith_equals (hsym : sym.InUse) {tier : Tier} {ls : List Lexeme} {e : Expr}
    (h : Derives sym tier ls e) {cs rest : List Char} (hspells : Spells sym ls cs rest) :
    startsWith (· == '=') cs = false := by
  obtain ⟨c, tail, htrim, hc, -⟩ := h.spells_head hsym hspells
  rw [startsWith_eq_false_iff]
  intro d hd
  rw [beq_eq_false_iff_ne]
  rintro rfl
  obtain ⟨cs, rfl⟩ := List.head?_eq_some_iff.1 hd
  rw [Text.trimStart_cons (by decide)] at htrim
  exact hc.ne_equals hsym (List.cons.inj htrim).1.symm

/-! ## Operators -/

/-- What the operators of the tier between two operands start with. -/
def Tier.operatorStarts : Tier → List Char
  | disjunction => ['o', '|']
  | conjunction => ['a', '&']
  | comparison => ['=', '!', '<', '>']
  | sum => ['+', '-']
  | product => ['*', '/', '%']
  | negation | sign | primary => []

theorem Tier.operator?_eq_none {tier : Tier} {c : Char} (h : c ∉ tier.operatorStarts) (cs : List Char) :
    tier.operator? (c :: cs) = none := by
  cases tier <;> simp only [operatorStarts, List.mem_cons, List.not_mem_nil, or_false, not_or] at h <;>
    simp [operator?, operators, Token.eat?, Text.dropPrefix?, h, Ne.symm]

theorem Tier.operator?_nil (tier : Tier) : tier.operator? (Text.trimStart []) = none := by
  cases tier <;> rfl

@[simp] theorem startsWith_contains_nil (cs : List Char) :
    startsWith ([] : List Char).contains cs = false := by
  cases cs <;> rfl

theorem dropPrefix?_equals {tail : List Char} (h : startsWith (· == '=') tail = false) :
    Text.dropPrefix? ['='] tail = none := by
  cases tail with
  | nil => rfl
  | cons c tail =>
    have : '=' ≠ c := by
      rintro rfl
      simp [startsWith] at h
    simp [Text.dropPrefix?, this]

/-- The sign of an assignment is no operator. -/
theorem Tier.operator?_equals (tier : Tier) {tail : List Char}
    (h : startsWith (· == '=') tail = false) : tier.operator? ('=' :: tail) = none := by
  have hequals := dropPrefix?_equals h
  cases tier <;> simp [operator?, operators, Token.eat?, Text.dropPrefix?, hequals]

/-- The operator that stands there is found. -/
theorem Tier.operator?_of_spelled {tier : Tier} {l : Lexeme} {op : BinaryOp}
    (hop : (l, op) ∈ tier.between) {text tail : List Char} (hl : l.Spelled sym text tail)
    (hstop : startsWith (· == '=') tail = false) :
    tier.operator? (text ++ tail) = some (op, Text.trimStart tail) := by
  have hequals := dropPrefix?_equals hstop
  cases tier <;> simp only [between, List.mem_cons, List.not_mem_nil, or_false, Prod.mk.injEq] at hop
  case disjunction | conjunction | sum =>
    rcases hop with ⟨rfl, rfl⟩ | ⟨rfl, rfl⟩ <;> obtain ⟨rfl, hl⟩ := hl <;>
      simp [operator?, operators, Token.eat?, Text.dropPrefix?, hl]
  case comparison =>
    rcases hop with ⟨rfl, rfl⟩ | ⟨rfl, rfl⟩ | ⟨rfl, rfl⟩ | ⟨rfl, rfl⟩ | ⟨rfl, rfl⟩ | ⟨rfl, rfl⟩ <;>
      obtain ⟨rfl, hl⟩ := hl <;> simp [operator?, operators, Token.eat?, Text.dropPrefix?, hequals]
  case product =>
    rcases hop with ⟨rfl, rfl⟩ | ⟨rfl, rfl⟩ | ⟨rfl, rfl⟩ <;> obtain ⟨rfl, hl⟩ := hl <;>
      simp [operator?, operators, Token.eat?, Text.dropPrefix?]

theorem Tier.start_of_spelled {tier : Tier} {l : Lexeme} {op : BinaryOp} (hop : (l, op) ∈ tier.between)
    {text tail : List Char} (hl : l.Spelled sym text tail) :
    ∃ c cs, text = c :: cs ∧ c ∈ tier.operatorStarts := by
  cases tier <;> simp only [between, List.mem_cons, List.not_mem_nil, or_false, Prod.mk.injEq] at hop
  case disjunction | conjunction | sum =>
    rcases hop with ⟨rfl, rfl⟩ | ⟨rfl, rfl⟩ <;> exact ⟨_, _, hl.1, by decide⟩
  case comparison =>
    rcases hop with ⟨rfl, rfl⟩ | ⟨rfl, rfl⟩ | ⟨rfl, rfl⟩ | ⟨rfl, rfl⟩ | ⟨rfl, rfl⟩ | ⟨rfl, rfl⟩ <;>
      exact ⟨_, _, hl.1, by decide⟩
  case product =>
    rcases hop with ⟨rfl, rfl⟩ | ⟨rfl, rfl⟩ | ⟨rfl, rfl⟩ <;> exact ⟨_, _, hl.1, by decide⟩

theorem Tier.not_blank_of_mem_operatorStarts {tier : Tier} {c : Char} (h : c ∈ tier.operatorStarts) :
    Text.isBlank c = false := by
  cases tier <;> revert c <;> decide

theorem Tier.operatorStarts_disjoint {tier stronger : Tier} (hlt : stronger.cost < tier.cost) {c : Char}
    (h : c ∈ tier.operatorStarts) : c ∉ stronger.operatorStarts := by
  revert c
  cases tier <;> cases stronger <;> revert hlt <;> decide

/-- The operator before an operand is found, and no operator of a stronger tier is. -/
theorem Derives.operator?_eq (hsym : sym.InUse) {tier right : Tier} {l : Lexeme} {op : BinaryOp}
    (hop : (l, op) ∈ tier.between) {ms : List Lexeme} {b : Expr} (h : Derives sym right ms b)
    {mid rest : List Char} (hspells : Spells sym (l :: ms) mid rest) :
    (∃ tail, tier.operator? (Text.trimStart mid) = some (op, tail) ∧ Spells sym ms tail rest) ∧
      ∀ t : Tier, t.cost < tier.cost → t.operator? (Text.trimStart mid) = none := by
  obtain ⟨text, tail, hl, hms, htrim⟩ := hspells.trimStart_cons fun hl => by
    obtain ⟨c, cs, rfl, hc⟩ := Tier.start_of_spelled hop hl
    exact ⟨c, cs, rfl, Tier.not_blank_of_mem_operatorStarts hc⟩
  rw [htrim]
  refine ⟨⟨_, Tier.operator?_of_spelled hop hl (h.startsWith_equals hsym hms), ?_⟩, ?_⟩
  · obtain ⟨c, cs, hcs, -, hspells'⟩ := h.spells_head hsym hms
    rwa [hcs]
  · intro t ht
    obtain ⟨c, cs, rfl, hc⟩ := Tier.start_of_spelled hop hl
    exact Tier.operator?_eq_none (Tier.operatorStarts_disjoint ht hc) _

/-! ## Leading operators -/

theorem Tier.leading?_eq_none (hsym : sym.InUse) {tier : Tier} {c : Char} (h : tier.next.Starts sym c)
    (cs : List Char) : tier.leading? (c :: cs) = none := by
  cases tier with
  | negation =>
    have hn : 'n' ≠ c ∧ '!' ≠ c := by
      rcases h with h | h
      · exact ⟨(h.ne hsym (by simp)).symm, (h.ne hsym (by simp)).symm⟩
      · revert c
        decide
    simp [leading?, leading, Token.eat?, Text.dropPrefix?, hn]
  | sign =>
    have hminus : '-' ≠ c := by
      rcases h with h | h
      · exact (h.ne hsym (by simp)).symm
      · cases h
    simp [leading?, leading, Token.eat?, Text.dropPrefix?, hminus]
  | disjunction | conjunction | comparison | sum | product | primary => rfl

theorem leading?_not {l : Lexeme} (h : l ∈ [.word "not", .mark "!"]) {text tail : List Char}
    (hl : l.Spelled sym text tail) :
    Tier.negation.leading? (text ++ tail) = some (Text.trimStart tail) := by
  simp only [List.mem_cons, List.not_mem_nil, or_false] at h
  rcases h with rfl | rfl
  · obtain ⟨rfl, hstop⟩ := hl
    simp [Tier.leading?, Tier.leading, Token.eat?, Text.dropPrefix?, hstop]
  · obtain ⟨rfl, hstop⟩ := hl
    have : startsWith ['='].contains tail = false := by
      simpa [startsWith_eq_false_iff] using hstop
    simp [Tier.leading?, Tier.leading, Token.eat?, Text.dropPrefix?, this]

theorem leading?_neg {text tail : List Char} (hl : (Lexeme.mark "-").Spelled sym text tail) :
    Tier.sign.leading? (text ++ tail) = some (Text.trimStart tail) := by
  obtain ⟨rfl, -⟩ := hl
  simp [Tier.leading?, Tier.leading, Token.eat?, Text.dropPrefix?]

/-! ## Stronger tiers -/

/-- What is read starts as an expression of its tier does. -/
theorem starts_of_readTier (hsym : sym.InUse) {fuel : Nat} {tier : Tier} {c : Char} (hc : Text.isBlank c = false)
    {cs : List Char} {r : Expr × List Char} (h : readTier sym fuel tier (c :: cs) = .ok r) : tier.Starts sym c := by
  obtain ⟨e, rest⟩ := r
  obtain ⟨ls, hls, hspells⟩ := derives_of_readTier h
  obtain ⟨d, tail, htrim, hd, -⟩ := hls.spells_head hsym hspells
  rw [Text.trimStart_cons hc] at htrim
  rwa [(List.cons.inj htrim).1]

/-- An expression of a tier that may start an expression of a stronger one does start with one. -/
theorem exists_readTier_of_starts (hsym : sym.InUse) {fuel : Nat} {tier stronger : Tier}
    (hle : stronger.cost ≤ tier.cost) {c : Char} (hc : stronger.Starts sym c) {cs : List Char} {r : Expr × List Char}
    (h : readTier sym fuel tier (c :: cs) = .ok r) : ∃ fuel r, readTier sym fuel stronger (c :: cs) = .ok r := by
  have htrim := Text.trimStart_cons (hc.not_blank hsym) cs
  induction fuel generalizing tier r with
  | zero => simp [readTier] at h
  | succ fuel ih =>
    by_cases heq : tier = stronger
    · exact ⟨_, r, heq ▸ h⟩
    have hne : tier ≠ .primary := by
      rintro rfl
      revert hle heq
      cases stronger <;> decide
    have hnext : stronger.cost ≤ tier.next.cost := by
      have hcost := Tier.cost_next hne
      have : stronger.cost ≠ tier.cost := by
        intro hcost
        revert hcost heq
        cases stronger <;> cases tier <;> decide
      omega
    rcases tier.shape with ht | ht | rfl | rfl
    · obtain ⟨left, rest, hleft, -⟩ := (readTier_chain_eq_ok_iff ht).1 h
      exact ih hnext hleft
    · have hnone := Tier.leading?_eq_none hsym (hc.weaken hnext) cs
      rw [readTier_lead_eq_ok_iff ht, htrim, hnone] at h
      obtain ⟨-, hread⟩ | ⟨_, _, _, h, -⟩ := h
      · exact ih hnext hread
      · cases h
    · obtain ⟨left, rest, hleft, -⟩ := readTier_comparison_eq_ok_iff.1 h
      exact ih hnext hleft
    · exact absurd rfl hne

/-- Behind a leading operator the reader goes on with the operand. -/
theorem exists_readTier_of_leading (hsym : sym.InUse) {fuel : Nat} {tier lead : Tier}
    (hlead : lead = .negation ∨ lead = .sign) (hle : lead.cost ≤ tier.cost) {c : Char} (hc : lead.Starts sym c)
    {cs mid : List Char} (hmid : lead.leading? (c :: cs) = some mid) {r : Expr × List Char}
    (h : readTier sym fuel tier (c :: cs) = .ok r) : ∃ fuel r, readTier sym fuel lead mid = .ok r := by
  obtain ⟨fuel, r, hread⟩ := exists_readTier_of_starts hsym hle hc h
  cases fuel with
  | zero => simp [readTier] at hread
  | succ fuel =>
    rw [readTier_lead_eq_ok_iff hlead, Text.trimStart_cons (hc.not_blank hsym), hmid] at hread
    obtain ⟨hnone, -⟩ | ⟨_, e, rest, ⟨rfl⟩, hread, -⟩ := hread
    · cases hnone
    · exact ⟨fuel, _, hread⟩

/-- Behind a bracket the reader goes on with an expression of any tier. -/
theorem exists_readTier_of_closing (hsym : sym.InUse) {fuel : Nat} {tier : Tier} {c close : Char}
    (hc : Opens sym c) (hclose : closing? sym c = some close) {cs : List Char} {r : Expr × List Char}
    (h : readTier sym fuel tier (c :: cs) = .ok r) : ∃ fuel r, readTier sym fuel .disjunction cs = .ok r := by
  have hle : Tier.primary.cost ≤ tier.cost := by cases tier <;> decide
  obtain ⟨fuel, r, hread⟩ := exists_readTier_of_starts hsym hle (.inl hc) h
  cases fuel with
  | zero => simp [readTier] at hread
  | succ fuel =>
    rw [readTier_primary_eq_ok_iff, Text.trimStart_cons (hc.not_blank hsym)] at hread
    obtain ⟨_, _, ⟨rfl⟩, ⟨hnone, -⟩ | ⟨_, e, mid, rest, -, hread, -⟩⟩ := hread
    · rw [hclose] at hnone
      cases hnone
    · exact ⟨fuel, _, hread⟩

end Expr

end SceneScript
