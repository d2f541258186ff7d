import SceneScript.Proofs.Text

/-!
# The grammar of expressions

An expression is a sequence of lexemes.  `Derives` says which sequences are expressions of a tier and which
trees they stand for; `Spells` says which texts are a sequence of lexemes, where what follows a lexeme may
take part in the decision and blanks may stand before every lexeme and at the end.

    disjunction := disjunction ("or" | "||") conjunction | conjunction
    conjunction := conjunction ("and" | "&&") negation | negation
    negation    := ("not" | "!") negation | comparison
    comparison  := sum ("==" | "!=" | "<=" | ">=" | "<" | ">") sum | sum
    sum         := sum ("+" | "-") product | product
    product     := product ("*" | "/" | "%") sign | sign
    sign        := "-" sign | primary
    primary     := bracket disjunction bracket | variable | text | "true" | "false" | number
-/

namespace SceneScript

/-- The pairs of characters that enclose a text. -/
def Symbols.quotes (sym : Symbols) : List (Char × Char) :=
  [('"', '"'), ('\'', '\''), (sym.openQuote, sym.closeQuote)]

/-- The pairs of brackets. -/
def Symbols.brackets (sym : Symbols) : List (Char × Char) :=
  [('(', ')'), (sym.openBracket, sym.closeBracket)]

namespace Expr

/-- The smallest parts of an expression. -/
inductive Lexeme where
  | word (w : String)
  | mark (m : String)
  | bracket (c : Char)
  /-- A name after the reference symbol. -/
  | name (s : String)
  | text (s : String)
  | integer (n : Int64)
  | decimal (x : Float)

/-- One or more digits. -/
def IsDigits (cs : List Char) : Prop := cs ≠ [] ∧ ∀ c ∈ cs, c.isDigit = true

/-- The text `cs` is the lexeme, if `rest` follows. -/
def Lexeme.Spelled (sym : Symbols) : Lexeme → List Char → List Char → Prop
  | word w, cs, rest => cs = w.toList ∧ startsWith Text.isNameChar rest = false
  | mark m, cs, rest => cs = m.toList ∧ (m = "=" ∨ m = "!" → startsWith (· == '=') rest = false)
  | bracket c, cs, _ => cs = [c]
  | name s, cs, rest =>
    cs = sym.reference :: s.toList ∧ s ≠ "" ∧ (∀ c ∈ s.toList, Text.isNameChar c = true) ∧
      startsWith Text.isNameChar rest = false
  | text s, cs, _ => ∃ q ∈ sym.quotes, cs = q.1 :: (s.toList ++ [q.2]) ∧ q.2 ∉ s.toList
  | integer n, cs, rest =>
    IsDigits cs ∧ n.toInt = Decimal.ofDigits cs ∧
      startsWith (fun c => c.isDigit || c == '.') rest = false
  | decimal x, cs, rest =>
    ∃ whole fraction, cs = whole ++ '.' :: fraction ∧ IsDigits whole ∧
      (∀ c ∈ fraction, c.isDigit = true) ∧ x = Decimal.nearest whole fraction ∧
      startsWith Char.isDigit rest = false

/-- The text `cs`, up to `rest`, is the sequence of lexemes. -/
inductive Spells (sym : Symbols) : List Lexeme → List Char → List Char → Prop
  | nil {bs rest : List Char} : Text.AllBlank bs → Spells sym [] (bs ++ rest) rest
  | cons {bs cs tail rest : List Char} {l : Lexeme} {ls : List Lexeme} :
      Text.AllBlank bs → l.Spelled sym cs tail → Spells sym ls tail rest →
      Spells sym (l :: ls) (bs ++ (cs ++ tail)) rest

/-- The tiers whose operators may stand in a row. -/
def Tier.IsChain (tier : Tier) : Prop := tier ∈ [.disjunction, .conjunction, .sum, .product]

theorem Tier.shape (tier : Tier) :
    tier.IsChain ∨ (tier = .negation ∨ tier = .sign) ∨ tier = .comparison ∨ tier = .primary := by
  cases tier <;> simp [IsChain]

theorem Tier.IsChain.shape {tier : Tier} (h : tier.IsChain) :
    tier = .disjunction ∨ tier = .conjunction ∨ tier = .sum ∨ tier = .product := by
  simpa [IsChain] using h

theorem Tier.IsChain.ne_primary {tier : Tier} (h : tier.IsChain) : tier ≠ .primary := by
  rcases h.shape with rfl | rfl | rfl | rfl <;> decide

theorem Tier.ne_primary_of_lead {tier : Tier} (h : tier = .negation ∨ tier = .sign) : tier ≠ .primary := by
  rcases h with rfl | rfl <;> decide

/-- How many calls lead from a tier to the next character at most. -/
def Tier.cost : Tier → Nat
  | disjunction => 8
  | conjunction => 7
  | negation => 6
  | comparison => 5
  | sum => 4
  | product => 3
  | sign => 2
  | primary => 1

theorem Tier.cost_next {tier : Tier} (h : tier ≠ .primary) : tier.next.cost + 1 = tier.cost := by
  cases tier <;> first | rfl | exact absurd rfl h

theorem Tier.cost_next_le (tier : Tier) : tier.next.cost ≤ tier.cost := by
  cases tier <;> decide

/-- The operators between two operands. -/
def Tier.between : Tier → List (Lexeme × BinaryOp)
  | disjunction => [(.word "or", .or), (.mark "||", .or)]
  | conjunction => [(.word "and", .and), (.mark "&&", .and)]
  | comparison =>
    [(.mark "==", .eq), (.mark "!=", .ne), (.mark "<=", .le), (.mark ">=", .ge), (.mark "<", .lt),
      (.mark ">", .gt)]
  | sum => [(.mark "+", .add), (.mark "-", .sub)]
  | product => [(.mark "*", .mul), (.mark "/", .div), (.mark "%", .rem)]
  | negation | sign | primary => []

/-- The lexeme is an expression of its own. -/
inductive IsAtom : Lexeme → Expr → Prop
  | var (name : String) : IsAtom (.name name) (.var name)
  | text (s : String) : IsAtom (.text s) (.literal (.text s))
  | yes : IsAtom (.word "true") (.literal (.bool true))
  | no : IsAtom (.word "false") (.literal (.bool false))
  | integer (n : Int64) : IsAtom (.integer n) (.literal (.int n))
  | decimal (x : Float) : IsAtom (.decimal x) (.literal (.float x))

/-- The lexemes are an expression of the tier. -/
inductive Derives (sym : Symbols) : Tier → List Lexeme → Expr → Prop
  | stronger {tier : Tier} {ls : List Lexeme} {e : Expr} :
      tier ≠ .primary → Derives sym tier.next ls e → Derives sym tier ls e
  | chain {tier : Tier} {ls ms : List Lexeme} {l : Lexeme} {op : BinaryOp} {a b : Expr} :
      tier.IsChain → Derives sym tier ls a → (l, op) ∈ tier.between → Derives sym tier.next ms b →
      Derives sym tier (ls ++ l :: ms) (.binary op a b)
  | comparison {ls ms : List Lexeme} {l : Lexeme} {op : BinaryOp} {a b : Expr} :
      Derives sym .sum ls a → (l, op) ∈ Tier.comparison.between → Derives sym .sum ms b →
      Derives sym .comparison (ls ++ l :: ms) (.binary op a b)
  | not {l : Lexeme} {ls : List Lexeme} {e : Expr} :
      l ∈ [.word "not", .mark "!"] → Derives sym .negation ls e → Derives sym .negation (l :: ls) (.not e)
  | neg {ls : List Lexeme} {e : Expr} :
      Derives sym .sign ls e → Derives sym .sign (.mark "-" :: ls) (.neg e)
  | bracket {left right : Char} {ls : List Lexeme} {e : Expr} :
      (left, right) ∈ sym.brackets → Derives sym .disjunction ls e →
      Derives sym .primary (.bracket left :: (ls ++ [.bracket right])) e
  | atom {l : Lexeme} {e : Expr} : IsAtom l e → Derives sym .primary [l] e

/-- The lexemes are an assignment or an expression without one. -/
inductive DerivesTop (sym : Symbols) : List Lexeme → Expr → Prop
  | assign (name : String) {ls : List Lexeme} {e : Expr} :
      Derives sym .disjunction ls e →
      DerivesTop sym (.name name :: .mark "=" :: ls) (.assign name e)
  | plain {ls : List Lexeme} {e : Expr} : Derives sym .disjunction ls e → DerivesTop sym ls e

/-! ## Sequences of lexemes -/

section

variable {sym : Symbols} {ls ms : List Lexeme} {cs mid rest : List Char}

theorem Spells.refl (cs : List Char) : Spells sym [] cs cs := .nil Text.AllBlank.nil

theorem spells_trimStart (cs : List Char) : Spells sym [] cs (Text.trimStart cs) := by
  obtain ⟨bs, hbs, h⟩ := Text.exists_blanks cs
  have hspells : Spells sym [] (bs ++ Text.trimStart cs) (Text.trimStart cs) := .nil hbs
  rwa [← h] at hspells

theorem Spells.blanks {bs : List Char} (hbs : Text.AllBlank bs) (h : Spells sym ls cs rest) :
    Spells sym ls (bs ++ cs) rest := by
  cases h with
  | nil h =>
    rw [← List.append_assoc]
    exact .nil (hbs.append h)
  | cons h hl hls =>
    rw [← List.append_assoc]
    exact .cons (hbs.append h) hl hls

theorem Spells.append (h : Spells sym ls cs mid) (h' : Spells sym ms mid rest) :
    Spells sym (ls ++ ms) cs rest := by
  induction h with
  | nil hbs => exact h'.blanks hbs
  | cons hbs hl _ ih => exact .cons hbs hl (ih h')

theorem Spells.of_append (h : Spells sym (ls ++ ms) cs rest) :
    ∃ mid, Spells sym ls cs mid ∧ Spells sym ms mid rest := by
  induction ls generalizing cs with
  | nil => exact ⟨cs, .refl cs, h⟩
  | cons l ls ih =>
    cases h with
    | cons hbs hl hls =>
      obtain ⟨mid, hmid, hms⟩ := ih hls
      exact ⟨mid, .cons hbs hl hmid, hms⟩

theorem Spells.of_cons {l : Lexeme} (h : Spells sym (l :: ls) cs rest) :
    ∃ mid, Spells sym [l] cs mid ∧ Spells sym ls mid rest := by
  rw [← List.singleton_append] at h
  exact h.of_append

theorem Spells.single {l : Lexeme} (h : l.Spelled sym cs rest) : Spells sym [l] (cs ++ rest) rest :=
  .cons Text.AllBlank.nil h (.refl rest)

theorem spells_bracket (c : Char) (rest : List Char) : Spells sym [.bracket c] (c :: rest) rest := by
  have hl : (Lexeme.bracket c).Spelled sym [c] rest := rfl
  exact .single hl

/-- Blanks behind a text that is spelled may be taken with it. -/
theorem Spells.trimRest (h : Spells sym ls cs rest) : Spells sym ls cs (Text.trimStart rest) := by
  have := h.append (spells_trimStart rest)
  rwa [List.append_nil] at this

end

/-- An expression of a tier is one of every weaker tier. -/
theorem Derives.weaken {sym : Symbols} {tier : Tier} {ls : List Lexeme} {e : Expr}
    (h : Derives sym tier ls e) (weaker : Tier) (hle : tier.cost ≤ weaker.cost) :
    Derives sym weaker ls e := by
  obtain ⟨n, hn⟩ := Nat.exists_eq_add_of_le hle
  induction n generalizing weaker with
  | zero =>
    obtain rfl : weaker = tier := by
      revert hn
      cases weaker <;> cases tier <;> decide
    exact h
  | succ n ih =>
    have hne : weaker ≠ .primary := by
      rintro rfl
      have hpos : 1 ≤ tier.cost := by cases tier <;> decide
      have hone : Tier.primary.cost = 1 := rfl
      omega
    have hcost := Tier.cost_next hne
    exact .stronger hne (ih weaker.next (by omega) (by omega))

end Expr

end SceneScript
