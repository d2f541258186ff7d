import SceneScript.Proofs.Render.Expr

/-!
# Showing expressions

An expression is shown with brackets around every operator between two operands, but without any around `not` and the
minus.  As `not` binds weaker than most operators, a `not` that is an operand of such an operator or of a minus is not
read as that operand.  To the left of the operator it is read around both operands; elsewhere no `not` is taken.

    Spells .english e.shownLexemes (e.shown ++ rest) rest            (spells_shown)
    e.All TakesNot → ∃ other, the lexemes of e are derived as other, and other = e ↔ e.All KeepsNot
                                                                     (exists_shownAs)
-/

namespace SceneScript

/-- The operator binds tighter than `not`. -/
def BinaryOp.IsTight (op : BinaryOp) : Prop := op ∉ [.or, .and]

instance (op : BinaryOp) : Decidable op.IsTight := inferInstanceAs (Decidable (op ∉ _))

namespace Expr

/-- The expression and all its parts satisfy `P`. -/
def All (P : Expr → Prop) : Expr → Prop
  | literal v => P (.literal v)
  | var name => P (.var name)
  | assign name value => P (.assign name value) ∧ value.All P
  | binary op left right => P (.binary op left right) ∧ left.All P ∧ right.All P
  | not e => P (.not e) ∧ e.All P
  | neg e => P (.neg e) ∧ e.All P

def decidableAll (P : Expr → Prop) [DecidablePred P] : (e : Expr) → Decidable (e.All P)
  | literal v => inferInstanceAs (Decidable (P (.literal v)))
  | var name => inferInstanceAs (Decidable (P (.var name)))
  | assign name value =>
    have := decidableAll P value
    inferInstanceAs (Decidable (P (.assign name value) ∧ value.All P))
  | binary op left right =>
    have := decidableAll P left
    have := decidableAll P right
    inferInstanceAs (Decidable (P (.binary op left right) ∧ left.All P ∧ right.All P))
  | not e =>
    have := decidableAll P e
    inferInstanceAs (Decidable (P (.not e) ∧ e.All P))
  | neg e =>
    have := decidableAll P e
    inferInstanceAs (Decidable (P (.neg e) ∧ e.All P))

instance (P : Expr → Prop) [DecidablePred P] (e : Expr) : Decidable (e.All P) := decidableAll P e

theorem All.imp {P Q : Expr → Prop} (hpq : ∀ e, P e → Q e) {e : Expr} (h : e.All P) : e.All Q := by
  induction e with
  | literal | var => exact hpq _ h
  | assign _ _ ih | not _ ih | neg _ ih => exact ⟨hpq _ h.1, ih h.2⟩
  | binary _ _ _ ihleft ihright => exact ⟨hpq _ h.1, ihleft h.2.1, ihright h.2.2⟩

theorem All.and {P Q : Expr → Prop} {e : Expr} (hp : e.All P) (hq : e.All Q) : e.All fun e => P e ∧ Q e := by
  induction e with
  | literal | var => exact ⟨hp, hq⟩
  | assign _ _ ih | not _ ih | neg _ ih => exact ⟨⟨hp.1, hq.1⟩, ih hp.2 hq.2⟩
  | binary _ _ _ ihleft ihright => exact ⟨⟨hp.1, hq.1⟩, ihleft hp.2.1 hq.2.1, ihright hp.2.2 hq.2.2⟩

/-- A literal is shown as it is written in a script: it is no float, and no character of a text is escaped. -/
def IsPlain : Expr → Prop
  | literal (.float _) => False
  | literal (.text s) => ∀ c ∈ s.toList, Text.escape c = [c]
  | _ => True

instance : DecidablePred IsPlain
  | literal (.float _) => .isFalse id
  | literal (.text s) => inferInstanceAs (Decidable (∀ c ∈ s.toList, Text.escape c = [c]))
  | literal (.int _) | literal (.bool _) | var _ | assign _ _ | binary _ _ _ | not _ | neg _ => .isTrue trivial

/-- What the reader makes of an operand: no integer below zero, no variable without a proper name, and no assignment. -/
def IsReadable : Expr → Prop
  | literal (.int n) => 0 ≤ n.toInt
  | var name => IsName name
  | assign _ _ => False
  | _ => True

/-- Both, so that the text of the expression can be cut into lexemes. -/
def IsExact (e : Expr) : Prop := e.IsPlain ∧ e.IsReadable

def IsNot : Expr → Bool
  | not _ => true
  | _ => false

/-- No `not` stands behind a minus or to the right of an operator that binds tighter. -/
def TakesNot : Expr → Prop
  | binary op _ right => op.IsTight → right.IsNot = false
  | neg e => e.IsNot = false
  | _ => True

/-- No `not` is an operand of a minus or of an operator that binds tighter. -/
def KeepsNot : Expr → Prop
  | binary op left right => op.IsTight → left.IsNot = false ∧ right.IsNot = false
  | neg e => e.IsNot = false
  | _ => True

instance : DecidablePred KeepsNot
  | binary op left right => inferInstanceAs (Decidable (op.IsTight → left.IsNot = false ∧ right.IsNot = false))
  | neg e => inferInstanceAs (Decidable (e.IsNot = false))
  | literal _ | var _ | assign _ _ | not _ => .isTrue trivial

theorem TakesNot.of_keepsNot {e : Expr} (h : e.KeepsNot) : e.TakesNot := by
  cases e with
  | binary => exact fun hop => (h hop).2
  | literal | var | assign | not | neg => exact h

/-- The lexemes of an expression as it is shown. -/
def shownLexemes : Expr → List Lexeme
  | literal (.int n) => [.integer n]
  | literal (.bool b) => [.word (if b then "true" else "false")]
  | literal (.text s) => [.text s]
  | literal (.float _) => []
  | var name => [.name name]
  | assign name value => .name name :: .mark "=" :: value.shownLexemes
  | binary op left right =>
    .bracket '(' :: ((left.shownLexemes ++ op.lexeme :: right.shownLexemes) ++ [.bracket ')'])
  | not e => .word "not" :: e.shownLexemes
  | neg e => .mark "-" :: e.shownLexemes

/-- The strongest tier of which the text of the expression may be an expression. -/
def shownTier : Expr → Tier
  | not _ => .negation
  | neg _ => .sign
  | _ => .primary

/-! ## The text spells the lexemes -/

section

-- the lemmas below say what is shown as characters; later proofs go by these lemmas
attribute [local simp] shown Value.shown

theorem toList_shown_binary (op : BinaryOp) (left right : Expr) :
    (binary op left right).shown.toList =
      '(' :: (left.shown.toList ++ (' ' :: (op.symbol.toList ++ (' ' :: (right.shown.toList ++ [')']))))) := by
  simp

theorem toList_shown_not (e : Expr) : (Expr.not e).shown.toList = "not".toList ++ ' ' :: e.shown.toList := by
  simp

theorem toList_shown_neg (e : Expr) : (neg e).shown.toList = '-' :: e.shown.toList := by
  simp

theorem toList_shown_var (name : String) : (var name).shown.toList = '@' :: name.toList := by
  simp

theorem toList_shown_int {n : Int64} (h : 0 ≤ n.toInt) :
    (literal (.int n)).shown.toList = Decimal.natText n.toInt.toNat := by
  have hneg : ¬ n.toInt < 0 := by omega
  simp [Decimal.intText, hneg]

theorem toList_shown_bool (b : Bool) :
    (literal (.bool b)).shown.toList = (if b then "true" else "false").toList := by
  cases b <;> rfl

theorem toList_shown_text {s : String} (h : ∀ c ∈ s.toList, Text.escape c = [c]) :
    (literal (.text s)).shown.toList = '"' :: (s.toList ++ ['"']) := by
  have hplain : s.toList.flatMap Text.escape = s.toList := by
    rw [List.flatMap_def, List.map_congr_left h, ← List.flatMap_def, List.flatMap_singleton']
  simp [Text.quoted, hplain]

end

theorem quote_not_mem {s : String} (h : ∀ c ∈ s.toList, Text.escape c = [c]) : '"' ∉ s.toList := by
  intro hmem
  exact absurd (h _ hmem) (by decide)

theorem spells_shown {e : Expr} (h : e.All IsExact) :
    ∀ {rest : List Char}, Breaks rest → Spells .english e.shownLexemes (e.shown.toList ++ rest) rest := by
  induction e with
  | literal v =>
    intro rest hrest
    cases v with
    | int n =>
      have hn : 0 ≤ n.toInt := h.2
      rw [toList_shown_int hn]
      refine Spells.single ⟨isDigits_natText _, ?_, hrest.startsWith (by decide)⟩
      rw [Decimal.ofDigits_natText, Int.toNat_of_nonneg hn]
    | float x => cases h.1
    | text s =>
      rw [toList_shown_text h.1]
      exact Spells.single (l := .text s) ⟨('"', '"'), by simp [Symbols.quotes], rfl, quote_not_mem h.1⟩
    | bool b =>
      rw [toList_shown_bool]
      exact Spells.single ⟨rfl, hrest.not_name⟩
  | var name =>
    intro rest hrest
    have hname : IsName name := h.2
    rw [toList_shown_var]
    exact Spells.single ⟨rfl, hname.1, hname.2, hrest.not_name⟩
  | assign name value _ => cases h.1.2
  | binary op left right ihleft ihright =>
    intro rest _
    have hend : Spells .english _ _ rest := spells_bracket ')' rest
    have hright := ihright h.2.2 (breaks_closeBracket (.inl rfl) rest)
    have hop : Spells .english [op.lexeme] _ _ := spells_space (Spells.single (spelled_operator op
      (right.shown.toList ++ ')' :: rest)))
    have hbody := ((ihleft h.2.1 (breaks_space _)).append (hop.append (spells_space hright))).append hend
    have := (spells_bracket '(' _).append hbody
    rw [toList_shown_binary]
    simpa [shownLexemes] using this
  | not e ih =>
    intro rest hrest
    have hl : (Lexeme.word "not").Spelled .english "not".toList (' ' :: (e.shown.toList ++ rest)) :=
      ⟨rfl, (breaks_space _).not_name⟩
    have := (Spells.single hl).append (spells_space (ih h.2 hrest))
    rw [toList_shown_not]
    simpa [shownLexemes] using this
  | neg e ih =>
    intro rest hrest
    have hl : (Lexeme.mark "-").Spelled .english "-".toList (e.shown.toList ++ rest) := ⟨rfl, by simp⟩
    rw [toList_shown_neg]
    exact (Spells.single hl).append (ih h.2 hrest)

/-- The text of an expression starts as an expression of its tier does. -/
theorem exists_head_shown {e : Expr} (h : e.All IsExact) :
    ∃ c cs, e.shown.toList = c :: cs ∧ e.shownTier.Starts .english c := by
  cases e with
  | literal v =>
    cases v with
    | int n =>
      have hdigits := isDigits_natText n.toInt.toNat
      obtain ⟨c, cs, hcs⟩ := List.exists_cons_of_ne_nil hdigits.1
      exact ⟨c, cs, (toList_shown_int h.2).trans hcs, .inl (.inr (hdigits.2 c (hcs ▸ List.mem_cons_self)))⟩
    | float x => cases h.1
    | text s => exact ⟨_, _, toList_shown_text h.1, .inl (.inl (by decide))⟩
    | bool b =>
      rw [toList_shown_bool]
      cases b with
      | true => exact ⟨'t', _, rfl, .inl (.inl (by decide))⟩
      | false => exact ⟨'f', _, rfl, .inl (.inl (by decide))⟩
  | var name => exact ⟨_, _, toList_shown_var name, .inl (.inl (by decide))⟩
  | assign name value => cases h.1.2
  | binary op left right => exact ⟨_, _, toList_shown_binary op left right, .inl (.inl (by decide))⟩
  | not e => exact ⟨'n', _, toList_shown_not e, .inr (by simp [shownTier, Tier.leadingStarts])⟩
  | neg e => exact ⟨_, _, toList_shown_neg e, .inr (by simp [shownTier, Tier.leadingStarts])⟩

theorem solid_shown {e : Expr} (h : e.All IsExact) : Text.Solid e.shown.toList := by
  have hmark : ∀ c ∈ ['(', ')', '@', '-', '"'], Text.Solid [c] := by
    intro c hc
    have hblank : ∀ c ∈ ['(', ')', '@', '-', '"'], Text.isBlank c = false := by decide
    exact Text.solid_of_forall (by simpa using hblank c hc)
  induction e with
  | literal v =>
    cases v with
    | int n => rw [toList_shown_int h.2]; exact (visible_natText _).solid
    | float x => cases h.1
    | text s =>
      rw [toList_shown_text h.1]
      exact (hmark '"' (by decide)).between (by simp) (hmark '"' (by decide)) (by simp) s.toList
    | bool b => rw [toList_shown_bool]; exact (isName_bool b).visible.solid
  | var name =>
    have hname : IsName name := h.2
    rw [toList_shown_var]
    exact (hmark '@' (by decide)).append hname.visible.solid
  | assign name value _ => cases h.1.2
  | binary op left right _ _ =>
    rw [toList_shown_binary]
    have := (hmark '(' (by decide)).between (by simp) (hmark ')' (by decide)) (by simp)
      (left.shown.toList ++ (' ' :: (op.symbol.toList ++ (' ' :: right.shown.toList))))
    simpa using this
  | not e ih =>
    obtain ⟨c, cs, hcs, -⟩ := exists_head_shown h.2
    have hnot : Text.Solid "not".toList := Text.solid_of_forall (by decide)
    rw [toList_shown_not]
    exact hnot.between (by decide) (ih h.2) (by simp [hcs]) [' ']
  | neg e ih =>
    rw [toList_shown_neg]
    exact (hmark '-' (by decide)).append (ih h.2)

/-! ## Where every `not` is taken -/

theorem shownTier_le_negation (e : Expr) : e.shownTier.cost ≤ Tier.negation.cost := by
  cases e <;> simp [shownTier, Tier.cost]

theorem shownTier_le_sign {e : Expr} (h : e.IsNot = false) : e.shownTier.cost ≤ Tier.sign.cost := by
  cases e with
  | not e => cases h
  | neg | literal | var | assign | binary => simp [shownTier, Tier.cost]

/-- An operand that is no `not`, or of an operator that binds weaker, is one of the next tier. -/
theorem shownTier_le {op : BinaryOp} {e : Expr} (h : op.IsTight → e.IsNot = false) :
    e.shownTier.cost ≤ op.tier.next.cost := by
  by_cases hop : op.IsTight
  · have hle : Tier.sign.cost ≤ op.tier.next.cost := by cases op <;> decide
    exact Nat.le_trans (shownTier_le_sign (h hop)) hle
  · have hle : Tier.negation.cost ≤ op.tier.next.cost := by
      revert hop
      cases op <;> decide
    exact Nat.le_trans (shownTier_le_negation e) hle

/-- The text of `e` is read as `other`. -/
structure ShownAs (e other : Expr) : Prop where
  derives : Derives .english e.shownTier e.shownLexemes other
  same_iff : other = e ↔ e.All KeepsNot
  /-- Before an operator that binds tighter, a `not` is read around both operands. -/
  absorbs : ∀ {op : BinaryOp}, op.IsTight → ∀ {ms : List Lexeme} {b : Expr}, Derives .english op.tier.next ms b →
    ∃ both, Derives .english .negation (e.shownLexemes ++ op.lexeme :: ms) both ∧ (e.IsNot = true → both.IsNot = true)

theorem ShownAs.of_derives {e other : Expr} (hnot : e.IsNot = false)
    (h : Derives .english e.shownTier e.shownLexemes other) (hsame : other = e ↔ e.All KeepsNot) : ShownAs e other where
  derives := h
  same_iff := hsame
  absorbs := by
    intro op hop ms b hb
    have hleft := h.weaken op.tier.next (shownTier_le fun _ => hnot)
    refine ⟨_, (derives_binary op hleft hb).weaken .negation ?_, fun htrue => ?_⟩
    · revert hop
      cases op <;> decide
    · rw [hnot] at htrue
      cases htrue

theorem ShownAs.not {e other : Expr} (h : ShownAs e other) : ShownAs (.not e) (.not other) where
  derives := .not (by simp) (h.derives.weaken .negation (shownTier_le_negation e))
  same_iff := by simp [All, KeepsNot, h.same_iff]
  absorbs := by
    intro op hop ms b hb
    obtain ⟨both, hboth, -⟩ := h.absorbs hop hb
    exact ⟨.not both, .not (by simp) hboth, fun _ => rfl⟩

theorem ShownAs.neg {e other : Expr} (h : ShownAs e other) (hnot : e.IsNot = false) :
    ShownAs (.neg e) (.neg other) := by
  refine .of_derives rfl ?_ (by simp [All, KeepsNot, h.same_iff, hnot])
  exact .neg (h.derives.weaken .sign (shownTier_le_sign hnot))

theorem exists_shownAs_binary {op : BinaryOp} {left right l r : Expr} (hl : ShownAs left l) (hr : ShownAs right r)
    (hright : op.IsTight → right.IsNot = false) : ∃ other, ShownAs (.binary op left right) other := by
  have hr' := hr.derives.weaken op.tier.next (shownTier_le hright)
  by_cases hleft : op.IsTight → left.IsNot = false
  · have hbody := derives_binary op (hl.derives.weaken op.tier.next (shownTier_le hleft)) hr'
    refine ⟨.binary op l r, .of_derives rfl ?_ ?_⟩
    · exact .bracket brackets_mem (hbody.weaken .disjunction (by cases op <;> decide))
    · have hnode : KeepsNot (.binary op left right) := fun hop => ⟨hleft hop, hright hop⟩
      simp [All, hnode, hl.same_iff, hr.same_iff]
  · -- the text reads as a `not` around the operator, which is another expression
    obtain ⟨hop, hnot⟩ := Classical.not_imp.1 hleft
    rw [Bool.not_eq_false] at hnot
    obtain ⟨both, hboth, hbothNot⟩ := hl.absorbs hop hr'
    refine ⟨both, .of_derives rfl (.bracket brackets_mem (hboth.weaken .disjunction (by decide))) ?_⟩
    constructor
    · rintro rfl
      cases hbothNot hnot
    · intro hall
      exact absurd (hall.1 hop).1 (by simp [hnot])

theorem exists_shownAs {e : Expr} (h : e.All IsExact) (htakes : e.All TakesNot) : ∃ other, ShownAs e other := by
  induction e with
  | literal v =>
    refine ⟨.literal v, .of_derives rfl ?_ (by simp [All, KeepsNot])⟩
    cases v with
    | int n => exact .atom (.integer n)
    | float x => cases h.1
    | text s => exact .atom (.text s)
    | bool b =>
      cases b with
      | true => exact .atom .yes
      | false => exact .atom .no
  | var name => exact ⟨.var name, .of_derives rfl (.atom (.var name)) (by simp [All, KeepsNot])⟩
  | assign name value _ => cases h.1.2
  | binary op left right ihleft ihright =>
    obtain ⟨l, hl⟩ := ihleft h.2.1 htakes.2.1
    obtain ⟨r, hr⟩ := ihright h.2.2 htakes.2.2
    exact exists_shownAs_binary hl hr htakes.1
  | not e ih =>
    obtain ⟨other, hother⟩ := ih h.2 htakes.2
    exact ⟨_, hother.not⟩
  | neg e ih =>
    obtain ⟨other, hother⟩ := ih h.2 htakes.2
    exact ⟨_, hother.neg htakes.1⟩

end Expr

end SceneScript
