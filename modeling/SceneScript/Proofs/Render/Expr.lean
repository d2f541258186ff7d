import SceneScript.Proofs.Decimal.Numeral
import SceneScript.Proofs.Expr.Complete

/-!
# Writing expressions

An expression is written with brackets around every operator, in the symbols of a language.  What is written is
read back as the expression it was.

    e.IsWritable → parse sym (e.written sym) = .ok e                 (parse_written)
-/

namespace SceneScript

/-- One or more characters of names. -/
def IsName (s : String) : Prop := s ≠ "" ∧ ∀ c ∈ s.toList, Text.isNameChar c = true

/-- The text can be quoted on one line, in either language. -/
def IsQuotable (s : String) : Prop := ∀ c ∈ s.toList, c ∉ ['#', '\t', '\n', '"', '“', '”']

/-- The symbols that stand in lines. -/
def Symbols.marks (sym : Symbols) : List Char :=
  [sym.keyword, sym.directive, sym.reference, sym.comma, sym.openBracket, sym.closeBracket, sym.openQuote,
    sym.closeQuote]

theorem Symbols.InUse.mark {sym : Symbols} (hsym : sym.InUse) {c : Char} (h : c ∈ sym.marks) :
    Text.isBlank c = false ∧ c ∉ ['#', '\t', '\n'] ∧ Text.isNameChar c = false := by
  have hall : ∀ sym ∈ [Symbols.english, .chinese], ∀ c ∈ sym.marks,
      Text.isBlank c = false ∧ c ∉ ['#', '\t', '\n'] ∧ Text.isNameChar c = false := by decide +kernel
  exact hall sym (by simpa [InUse] using hsym) c h

theorem IsName.visible {s : String} (h : IsName s) : Text.Visible s.toList where
  ne_nil hs := h.1 (String.toList_eq_nil_iff.1 hs)
  solid := Text.solid_of_forall fun c hc => Text.not_blank_of_isNameChar (h.2 c hc)
  clear c hc := Text.clear_of_isNameChar (h.2 c hc)

theorem IsQuotable.clear {s : String} (h : IsQuotable s) : Text.Clear s.toList := by
  intro c hc hmem
  have hall : ∀ c ∈ ['#', '\t', '\n'], c ∈ ['#', '\t', '\n', '"', '“', '”'] := by decide
  exact h c hc (hall c hmem)

theorem Symbols.InUse.visible {sym : Symbols} (hsym : sym.InUse) {c : Char} (h : c ∈ sym.marks) :
    Text.Visible [c] :=
  Text.visible_singleton (hsym.mark h).1 (hsym.mark h).2.1

namespace BinaryOp

/-- The tier of the operator. -/
def tier : BinaryOp → Expr.Tier
  | or => .disjunction
  | and => .conjunction
  | eq | ne | le | ge | lt | gt => .comparison
  | add | sub => .sum
  | mul | div | rem => .product

/-- The operator as a lexeme. -/
def lexeme (op : BinaryOp) : Expr.Lexeme :=
  if op = .or ∨ op = .and then .word op.symbol else .mark op.symbol

theorem lexeme_mem (op : BinaryOp) : (op.lexeme, op) ∈ op.tier.between := by
  cases op <;> simp [lexeme, symbol, tier, Expr.Tier.between]

theorem clear_symbol (op : BinaryOp) : Text.Clear op.symbol.toList := by
  intro c hc
  cases op <;> revert c <;> decide

end BinaryOp

namespace Expr

/-- The expression can be written as an operand. -/
def IsOperand : Expr → Prop
  | literal (.int n) => 0 ≤ n.toInt
  | literal (.bool _) => True
  | literal (.text s) => IsQuotable s
  | literal (.float _) => False
  | var name => IsName name
  | assign _ _ => False
  | binary _ left right => left.IsOperand ∧ right.IsOperand
  | not e => e.IsOperand
  | neg e => e.IsOperand

/-- The expression can be written: an assignment may stand at the top. -/
def IsWritable : Expr → Prop
  | assign name value => IsName name ∧ value.IsOperand
  | e => e.IsOperand

/-- The expression with brackets around every operator. -/
def written (sym : Symbols) : Expr → List Char
  | literal (.int n) => Decimal.natText n.toInt.toNat
  | literal (.bool b) => (if b then "true" else "false").toList
  | literal (.text s) => sym.openQuote :: (s.toList ++ [sym.closeQuote])
  | literal (.float _) => []
  | var name => sym.reference :: name.toList
  | assign name value => sym.reference :: (name.toList ++ (" = ".toList ++ value.written sym))
  | binary op left right =>
    sym.openBracket :: (left.written sym ++
      (' ' :: (op.symbol.toList ++ (' ' :: (right.written sym ++ [sym.closeBracket])))))
  | not e => sym.openBracket :: ("not ".toList ++ (e.written sym ++ [sym.closeBracket]))
  | neg e => sym.openBracket :: '-' :: (e.written sym ++ [sym.closeBracket])

/-- The lexemes of an operand as it is written. -/
def lexemes (sym : Symbols) : Expr → List Lexeme
  | literal (.int n) => [.integer n]
  | literal (.bool b) => [.word (if b then "true" else "false")]
  | literal (.text s) => [.text s]
  | literal (.float _) => []
  | var name => [.name name]
  | assign _ _ => []
  | binary op left right =>
    .bracket sym.openBracket ::
      ((left.lexemes sym ++ op.lexeme :: right.lexemes sym) ++ [.bracket sym.closeBracket])
  | not e => .bracket sym.openBracket :: ((.word "not" :: e.lexemes sym) ++ [.bracket sym.closeBracket])
  | neg e => .bracket sym.openBracket :: ((.mark "-" :: e.lexemes sym) ++ [.bracket sym.closeBracket])

section

variable {sym : Symbols}

/-! ## The lexemes are derived -/

theorem brackets_mem : (sym.openBracket, sym.closeBracket) ∈ sym.brackets := by
  simp [Symbols.brackets]

theorem derives_binary (op : BinaryOp) {ls ms : List Lexeme} {a b : Expr}
    (ha : Derives sym op.tier.next ls a) (hb : Derives sym op.tier.next ms b) :
    Derives sym op.tier (ls ++ op.lexeme :: ms) (.binary op a b) := by
  have hop := op.lexeme_mem
  rcases op.tier.shape with ht | ht | ht | ht
  · exact .chain ht (.stronger ht.ne_primary ha) hop hb
  · cases op <;> simp [BinaryOp.tier] at ht
  · rw [ht] at ha hop hb ⊢
    exact .comparison ha hop hb
  · cases op <;> simp [BinaryOp.tier] at ht

theorem derives_lexemes {e : Expr} (h : e.IsOperand) : Derives sym .primary (e.lexemes sym) e := by
  induction e with
  | literal v =>
    cases v with
    | int n => exact .atom (.integer n)
    | float x => cases h
    | text s => exact .atom (.text s)
    | bool b =>
      cases b with
      | true => exact .atom .yes
      | false => exact .atom .no
  | var name => exact .atom (.var name)
  | assign name value _ => cases h
  | binary op left right ihleft ihright =>
    have hle : Tier.primary.cost ≤ op.tier.next.cost := by cases op <;> decide
    have hbody := derives_binary op ((ihleft h.1).weaken _ hle) ((ihright h.2).weaken _ hle)
    exact .bracket brackets_mem (hbody.weaken .disjunction (by cases op <;> decide))
  | not e ih =>
    have hnot : Derives sym .negation (.word "not" :: e.lexemes sym) (.not e) :=
      .not (by simp) ((ih h).weaken .negation (by decide))
    exact .bracket brackets_mem (hnot.weaken .disjunction (by decide))
  | neg e ih =>
    have hneg : Derives sym .sign (.mark "-" :: e.lexemes sym) (.neg e) :=
      .neg ((ih h).weaken .sign (by decide))
    exact .bracket brackets_mem (hneg.weaken .disjunction (by decide))

/-! ## The text spells the lexemes -/

/-- The text does not go on with a name or a number. -/
def Breaks (rest : List Char) : Prop := ∀ c ∈ rest.head?, c ∈ [' ', ')', '）']

theorem Breaks.startsWith {rest : List Char} (h : Breaks rest) {p : Char → Bool}
    (hp : ∀ c ∈ [' ', ')', '）'], p c = false) : startsWith p rest = false := by
  rw [startsWith_eq_false_iff]
  exact fun c hc => hp c (h c hc)

theorem breaks_nil : Breaks [] := by simp [Breaks]

theorem breaks_space (rest : List Char) : Breaks (' ' :: rest) := by simp [Breaks]

theorem breaks_closeBracket (hsym : sym.InUse) (rest : List Char) : Breaks (sym.closeBracket :: rest) := by
  rcases hsym with rfl | rfl <;> simp [Breaks, Symbols.english, Symbols.chinese]

theorem Breaks.not_name {rest : List Char} (h : Breaks rest) :
    Expr.startsWith Text.isNameChar rest = false := by
  have hmark : Text.isNameChar '）' = false :=
    (Symbols.InUse.mark (.inr rfl) (by decide : '）' ∈ Symbols.chinese.marks)).2.2
  apply h.startsWith
  simp [hmark, (by decide : Text.isNameChar ' ' = false ∧ Text.isNameChar ')' = false)]

theorem isDigits_natText (n : Nat) : IsDigits (Decimal.natText n) :=
  ⟨Nat.toDigits_ne_nil, fun _ => Decimal.isDigit_of_mem_natText⟩

theorem spelled_operator (op : BinaryOp) (tail : List Char) :
    op.lexeme.Spelled sym op.symbol.toList (' ' :: tail) := by
  have hspace := (breaks_space tail).not_name
  cases op <;> simp [BinaryOp.lexeme, BinaryOp.symbol, Lexeme.Spelled, hspace]

theorem closeQuote_not_mem (hsym : sym.InUse) {s : String} (h : IsQuotable s) :
    sym.closeQuote ∉ s.toList := by
  intro hmem
  refine h _ hmem ?_
  rcases hsym with rfl | rfl <;> decide

theorem spells_space {ls : List Lexeme} {cs rest : List Char} (h : Spells sym ls cs rest) :
    Spells sym ls (' ' :: cs) rest :=
  h.blanks Text.AllBlank.space

theorem spells_written (hsym : sym.InUse) {e : Expr} (h : e.IsOperand) :
    ∀ {rest : List Char}, Breaks rest → Spells sym (e.lexemes sym) (e.written sym ++ rest) rest := by
  induction e with
  | literal v =>
    intro rest hrest
    cases v with
    | int n =>
      have hn : 0 ≤ n.toInt := h
      refine Spells.single ⟨isDigits_natText _, ?_, hrest.startsWith (by decide)⟩
      rw [written, Decimal.ofDigits_natText, Int.toNat_of_nonneg hn]
    | float x => cases h
    | text s =>
      refine Spells.single (l := .text s) ⟨(sym.openQuote, sym.closeQuote), ?_, rfl, ?_⟩
      · simp [Symbols.quotes]
      · exact closeQuote_not_mem hsym h
    | bool b => exact Spells.single ⟨rfl, hrest.not_name⟩
  | var name =>
    intro rest hrest
    exact Spells.single ⟨rfl, h.1, h.2, hrest.not_name⟩
  | assign name value _ => cases h
  | binary op left right ihleft ihright =>
    intro rest _
    have hend : Spells sym _ _ rest := spells_bracket sym.closeBracket rest
    have hright := ihright h.2 (breaks_closeBracket hsym rest)
    have hop : Spells sym [op.lexeme] _ _ := spells_space (Spells.single (spelled_operator op
      (right.written sym ++ sym.closeBracket :: rest)))
    have hbody := ((ihleft h.1 (breaks_space _)).append (hop.append (spells_space hright))).append hend
    have := (spells_bracket sym.openBracket _).append hbody
    simpa [written, lexemes] using this
  | not e ih =>
    intro rest _
    have hend : Spells sym _ _ rest := spells_bracket sym.closeBracket rest
    have hbody := ih h (breaks_closeBracket hsym rest)
    have hl : (Lexeme.word "not").Spelled sym "not".toList
        (' ' :: (e.written sym ++ sym.closeBracket :: rest)) :=
      ⟨rfl, (breaks_space _).not_name⟩
    have := (spells_bracket sym.openBracket _).append
      (((Spells.single hl).append (spells_space hbody)).append hend)
    simpa [written, lexemes] using this
  | neg e ih =>
    intro rest _
    have hend : Spells sym _ _ rest := spells_bracket sym.closeBracket rest
    have hbody := ih h (breaks_closeBracket hsym rest)
    have hl : (Lexeme.mark "-").Spelled sym "-".toList (e.written sym ++ sym.closeBracket :: rest) :=
      ⟨rfl, by simp⟩
    have := (spells_bracket sym.openBracket _).append (((Spells.single hl).append hbody).append hend)
    simpa [written, lexemes] using this

theorem spells_assignment {name : String} (h : IsName name) {ls : List Lexeme} {cs rest : List Char}
    (hls : Spells sym ls cs rest) :
    Spells sym (.name name :: .mark "=" :: ls) (sym.reference :: (name.toList ++ (" = ".toList ++ cs))) rest := by
  have hname : (Lexeme.name name).Spelled sym (sym.reference :: name.toList) (' ' :: '=' :: ' ' :: cs) :=
    ⟨rfl, h.1, h.2, (breaks_space _).not_name⟩
  have hequals : (Lexeme.mark "=").Spelled sym "=".toList (' ' :: cs) := ⟨rfl, by simp [startsWith]⟩
  exact (Spells.single hname).append ((spells_space (Spells.single hequals)).append (spells_space hls))

/-! ## Written expressions on a line -/

theorem visible_natText (n : Nat) : Text.Visible (Decimal.natText n) where
  ne_nil := (isDigits_natText n).1
  solid := Text.solid_of_forall fun c hc => isBlank_eq_false_of_isDigit ((isDigits_natText n).2 c hc)
  clear c hc hmem := by
    have hdigit := (isDigits_natText n).2 c hc
    have hall : ∀ c ∈ ['#', '\t', '\n'], c.isDigit = false := by decide
    rw [hall c hmem] at hdigit
    cases hdigit

theorem visible_quoted (hsym : sym.InUse) {s : String} (h : IsQuotable s) :
    Text.Visible (sym.openQuote :: (s.toList ++ [sym.closeQuote])) := by
  have hopen : Text.Visible [sym.openQuote] := hsym.visible (by simp [Symbols.marks])
  have hclose : Text.Visible [sym.closeQuote] := hsym.visible (by simp [Symbols.marks])
  exact hopen.between h.clear hclose

theorem isName_bool (b : Bool) : IsName (if b then "true" else "false") := by
  unfold IsName
  cases b <;> decide

theorem visible_operand (hsym : sym.InUse) {e : Expr} (h : e.IsOperand) :
    Text.Visible (e.written sym) := by
  have hreference : Text.Visible [sym.reference] := hsym.visible (by simp [Symbols.marks])
  have hopen : Text.Visible [sym.openBracket] := hsym.visible (by simp [Symbols.marks])
  have hclose : Text.Visible [sym.closeBracket] := hsym.visible (by simp [Symbols.marks])
  induction e with
  | literal v =>
    cases v with
    | int n => exact visible_natText _
    | float x => cases h
    | text s => exact visible_quoted hsym h
    | bool b => exact (isName_bool b).visible
  | var name =>
    exact hreference.between Text.Clear.nil (IsName.visible h)
  | assign name value _ => cases h
  | binary op left right ihleft ihright =>
    have hmid := (ihleft h.1).clear.append
      (Text.Clear.space.append (op.clear_symbol.append (Text.Clear.space.append (ihright h.2).clear)))
    simpa [written] using hopen.between hmid hclose
  | not e ih =>
    have hnot : Text.Clear "not ".toList := by
      unfold Text.Clear
      decide
    simpa [written] using hopen.between (hnot.append (ih h).clear) hclose
  | neg e ih =>
    have hminus : Text.Clear ['-'] := by
      unfold Text.Clear
      decide
    simpa [written] using hopen.between (hminus.append (ih h).clear) hclose

theorem visible_written (hsym : sym.InUse) {e : Expr} (h : e.IsWritable) :
    Text.Visible (e.written sym) := by
  cases e with
  | assign name value =>
    have hreference : Text.Visible [sym.reference] := hsym.visible (by simp [Symbols.marks])
    have hequals : Text.Clear " = ".toList := by
      unfold Text.Clear
      decide
    simpa [written] using hreference.between (h.1.visible.clear.append hequals) (visible_operand hsym h.2)
  | literal | var | binary | not | neg => exact visible_operand hsym h

/-- **What is written is read back.** -/
theorem parse_written (hsym : sym.InUse) {e : Expr} (h : e.IsWritable) :
    Expr.parse sym (String.ofList (e.written sym)) = .ok e := by
  have hplain (ho : e.IsOperand) : Expr.parse sym (String.ofList (e.written sym)) = .ok e := by
    refine parse_of_derives hsym ?_ (.plain ((derives_lexemes ho).weaken .disjunction (by decide)))
    rw [String.toList_ofList, (visible_operand hsym ho).solid.trim_eq]
    simpa using spells_written hsym ho breaks_nil
  cases e with
  | assign name value =>
    have hvalue : Derives sym .disjunction (value.lexemes sym) value :=
      (derives_lexemes h.2).weaken .disjunction (by decide)
    refine parse_of_derives hsym ?_ (.assign name hvalue)
    rw [String.toList_ofList, (visible_written hsym h).solid.trim_eq]
    have hspells := spells_written hsym h.2 breaks_nil
    rw [List.append_nil] at hspells
    exact spells_assignment h.1 hspells
  | literal | var | binary | not | neg => exact hplain h

end

end Expr

end SceneScript
