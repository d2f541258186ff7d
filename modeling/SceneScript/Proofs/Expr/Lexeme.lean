import SceneScript.Proofs.Expr.Grammar

/-!
# Reading lexemes

The functions that read one lexeme accept exactly the texts that spell it and leave what follows, without the
blanks in front if the lexeme is a word or a mark.
-/

namespace SceneScript

theorem Decimal.toInt64?_eq_some_iff {k : Int} {n : Int64} : toInt64? k = some n ↔ n.toInt = k := by
  unfold toInt64?
  constructor
  · intro h
    split at h
    · rename_i hk
      obtain rfl := Option.some.inj h
      have : Int64.maxValue.toInt < 2 ^ 63 := by decide
      exact Int64.toInt_ofInt_of_le hk.1 (by omega)
    · cases h
  · rintro rfl
    rw [if_pos ⟨n.minValue_le_toInt, n.toInt_le⟩, Int64.ofInt_toInt]

namespace Expr

/-! ## Words and marks -/

theorem cut_eq_some_iff {p : Char → Bool} {head cs rest : List Char} :
    (match Text.dropPrefix? head cs with
      | some tail => if startsWith p tail then none else some (Text.trimStart tail)
      | none => none) = some rest ↔
      ∃ tail, cs = head ++ tail ∧ startsWith p tail = false ∧ rest = Text.trimStart tail := by
  constructor
  · intro h
    split at h
    · rename_i tail htail
      split at h
      · cases h
      · rename_i hstop
        exact ⟨tail, Text.dropPrefix?_eq_some_iff.1 htail, by simpa using hstop, by simpa using h.symm⟩
    · cases h
  · rintro ⟨tail, rfl, hstop, rfl⟩
    simp [Text.dropPrefix?_eq_some_iff.2 rfl, hstop]

/-- The token as a lexeme. -/
def Token.lexeme : Token → Lexeme
  | word w => .word w
  | mark m _ => .mark m

/-- The token looks ahead exactly where its lexeme does. -/
def Token.IsExact : Token → Prop
  | word _ => True
  | mark m notBefore => notBefore = if m = "=" ∨ m = "!" then ['='] else []

theorem Token.eat?_eq_some_iff {t : Token} (ht : t.IsExact) (sym : Symbols) {cs rest : List Char} :
    t.eat? cs = some rest ↔
      ∃ text tail, cs = text ++ tail ∧ t.lexeme.Spelled sym text tail ∧ rest = Text.trimStart tail := by
  cases t with
  | word w =>
    refine cut_eq_some_iff.trans ⟨?_, ?_⟩
    · rintro ⟨tail, rfl, hstop, rfl⟩
      exact ⟨_, tail, rfl, ⟨rfl, hstop⟩, rfl⟩
    · rintro ⟨_, tail, rfl, ⟨rfl, hstop⟩, rfl⟩
      exact ⟨tail, rfl, hstop, rfl⟩
  | mark m notBefore =>
    have hstop : ∀ tail, startsWith notBefore.contains tail = false ↔
        (m = "=" ∨ m = "!" → startsWith (· == '=') tail = false) := by
      intro tail
      obtain rfl : notBefore = _ := ht
      by_cases h : m = "=" ∨ m = "!" <;> simp [h, startsWith_eq_false_iff]
    refine cut_eq_some_iff.trans ⟨?_, ?_⟩
    · rintro ⟨tail, rfl, h, rfl⟩
      exact ⟨_, tail, rfl, ⟨rfl, (hstop tail).1 h⟩, rfl⟩
    · rintro ⟨_, tail, rfl, ⟨rfl, h⟩, rfl⟩
      exact ⟨tail, rfl, (hstop tail).2 h, rfl⟩

theorem Tier.between_eq (tier : Tier) :
    tier.between = tier.operators.map fun p => (p.1.lexeme, p.2) := by
  cases tier <;> rfl

theorem Tier.isExact_of_mem_operators {tier : Tier} {p : Token × BinaryOp} (h : p ∈ tier.operators) :
    p.1.IsExact := by
  cases tier <;> revert p <;> simp [operators, Token.IsExact]

theorem Tier.isExact_of_mem_leading {tier : Tier} {t : Token} (h : t ∈ tier.leading) : t.IsExact := by
  cases tier <;> revert t <;> simp [leading, Token.IsExact]

/-- An operator that is found stands there. -/
theorem Tier.spelled_of_operator? {tier : Tier} (sym : Symbols) {cs rest : List Char} {op : BinaryOp}
    (h : tier.operator? cs = some (op, rest)) :
    ∃ l, (l, op) ∈ tier.between ∧ Spells sym [l] cs rest := by
  obtain ⟨p, hp, heat⟩ := List.exists_of_findSome?_eq_some h
  obtain ⟨rest', hrest, he⟩ := Option.map_eq_some_iff.1 heat
  obtain ⟨rfl, rfl⟩ := Prod.mk.inj he
  obtain ⟨text, tail, rfl, hl, rfl⟩ := (Token.eat?_eq_some_iff (isExact_of_mem_operators hp) sym).1 hrest
  refine ⟨p.1.lexeme, ?_, (Spells.single hl).trimRest⟩
  rw [between_eq]
  exact List.mem_map_of_mem hp

/-- A leading operator that is found stands there. -/
theorem Tier.spelled_of_leading? {tier : Tier} (sym : Symbols) {cs rest : List Char}
    (h : tier.leading? cs = some rest) :
    ∃ t ∈ tier.leading, Spells sym [t.lexeme] cs rest := by
  obtain ⟨t, ht, heat⟩ := List.exists_of_findSome?_eq_some h
  obtain ⟨text, tail, rfl, hl, rfl⟩ := (Token.eat?_eq_some_iff (isExact_of_mem_leading ht) sym).1 heat
  exact ⟨t, ht, (Spells.single hl).trimRest⟩

/-! ## Names, texts and numbers -/

theorem readName_eq_ok_iff {cs rest : List Char} {name : String} :
    readName cs = .ok (name, rest) ↔
      cs = name.toList ++ rest ∧ name ≠ "" ∧ (∀ c ∈ name.toList, Text.isNameChar c = true) ∧
        startsWith Text.isNameChar rest = false := by
  constructor
  · intro h
    unfold readName at h
    split at h
    · cases h
    · rename_i hne
      obtain ⟨rfl, rfl⟩ : _ ∧ _ := by simpa using h
      refine ⟨?_, ?_, ?_, startsWith_dropWhile _ _⟩
      · simp
      · intro hname
        exact hne (by simpa using hname)
      · intro c hc
        rw [String.toList_ofList] at hc
        exact List.all_eq_true.1 List.all_takeWhile c hc
  · rintro ⟨rfl, hne, hname, hrest⟩
    unfold readName
    rw [takeWhile_run hname hrest, dropWhile_run hname hrest]
    split
    · rename_i h
      exact absurd (String.toList_eq_nil_iff.1 h) hne
    · rw [String.ofList_toList]

theorem readText_eq_ok_iff {close : Char} {cs rest : List Char} {e : Expr} :
    readText close cs = .ok (e, rest) ↔
      ∃ s : String, e = .literal (.text s) ∧ cs = s.toList ++ close :: rest ∧ close ∉ s.toList := by
  constructor
  · intro h
    unfold readText at h
    split at h
    · cases h
    · rename_i d tail hdrop
      obtain ⟨rfl, rfl⟩ : _ ∧ _ := by simpa using h
      have hd := startsWith_dropWhile (· != close) cs
      rw [hdrop] at hd
      obtain rfl : d = close := by simpa [startsWith] using hd
      refine ⟨_, rfl, ?_, ?_⟩
      · rw [String.toList_ofList, ← hdrop, List.takeWhile_append_dropWhile]
      · rw [String.toList_ofList]
        intro hmem
        have := List.all_eq_true.1 List.all_takeWhile _ hmem
        simp at this
  · rintro ⟨s, rfl, rfl, hclose⟩
    have hrun : ∀ c ∈ s.toList, (c != close) = true := by
      intro c hc
      simp only [bne_iff_ne]
      rintro rfl
      exact hclose hc
    have hstop : startsWith (· != close) (close :: rest) = false := by simp [startsWith]
    unfold readText
    rw [takeWhile_run hrun hstop, dropWhile_run hrun hstop, String.ofList_toList]

theorem spelled_of_readNumber (sym : Symbols) {cs rest : List Char} {e : Expr}
    (hcs : startsWith Char.isDigit cs = true) (h : readNumber cs = .ok (e, rest)) :
    ∃ l text, cs = text ++ rest ∧ l.Spelled sym text rest ∧ IsAtom l e := by
  have hdigits : IsDigits (cs.takeWhile Char.isDigit) := by
    refine ⟨?_, List.all_eq_true.1 List.all_takeWhile⟩
    cases cs with
    | nil => simp [startsWith] at hcs
    | cons c cs => simp [show c.isDigit = true from hcs]
  have hstop := startsWith_dropWhile Char.isDigit cs
  have hwhole : cs = cs.takeWhile Char.isDigit ++ cs.dropWhile Char.isDigit :=
    List.takeWhile_append_dropWhile.symm
  simp only [readNumber] at h
  split at h
  · rename_i tail hdrop
    obtain ⟨rfl, rfl⟩ : _ ∧ _ := by simpa using h
    refine ⟨.decimal _, _ ++ '.' :: tail.takeWhile Char.isDigit, ?_,
      ⟨_, _, rfl, hdigits, List.all_eq_true.1 List.all_takeWhile, rfl, startsWith_dropWhile _ _⟩,
      .decimal _⟩
    rw [List.append_assoc, List.cons_append, List.takeWhile_append_dropWhile, ← hdrop]
    exact hwhole
  · rename_i hpoint
    split at h
    · rename_i n hn
      obtain ⟨rfl, rfl⟩ : _ ∧ _ := by simpa using h
      refine ⟨.integer n, _, hwhole, ⟨hdigits, Decimal.toInt64?_eq_some_iff.1 hn, ?_⟩, .integer n⟩
      rw [startsWith_eq_false_iff] at hstop ⊢
      intro c hc
      rw [hstop c hc, Bool.false_or, beq_eq_false_iff_ne]
      rintro rfl
      obtain ⟨tail, htail⟩ := List.head?_eq_some_iff.1 hc
      exact hpoint tail htail
    · cases h

theorem readNumber_integer {sym : Symbols} {n : Int64} {text rest : List Char}
    (h : (Lexeme.integer n).Spelled sym text rest) :
    readNumber (text ++ rest) = .ok (.literal (.int n), rest) := by
  obtain ⟨hdigits, hn, hstop⟩ := h
  have hstop' : startsWith Char.isDigit rest = false := by
    rw [startsWith_eq_false_iff] at hstop ⊢
    intro c hc
    have := hstop c hc
    simp_all
  simp only [readNumber]
  rw [takeWhile_run hdigits.2 hstop', dropWhile_run hdigits.2 hstop']
  split
  · simp [startsWith] at hstop
  · rw [Decimal.toInt64?_eq_some_iff.2 hn]

theorem readNumber_decimal {sym : Symbols} {x : Float} {text rest : List Char}
    (h : (Lexeme.decimal x).Spelled sym text rest) :
    readNumber (text ++ rest) = .ok (.literal (.float x), rest) := by
  obtain ⟨whole, fraction, rfl, hwhole, hfraction, rfl, hstop⟩ := h
  have hpoint : startsWith Char.isDigit ('.' :: (fraction ++ rest)) = false := rfl
  unfold readNumber
  rw [List.append_assoc, List.cons_append, takeWhile_run hwhole.2 hpoint, dropWhile_run hwhole.2 hpoint]
  simp only
  rw [takeWhile_run hfraction hstop, dropWhile_run hfraction hstop]

end Expr

end SceneScript
