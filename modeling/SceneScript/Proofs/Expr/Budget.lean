import SceneScript.Proofs.Expr.Sound

/-!
# The budget of the reader

More budget does not change an expression that is read, and what can be read with any budget can be read with
the one that the length of the text gives.

    readTier sym fuel tier cs = .ok r → fuel ≤ more → readTier sym more tier cs = .ok r
                                                                     (readTier_mono)
    readTier sym fuel .disjunction cs = .ok r → readOperand sym cs = .ok r
                                                                     (readOperand_of_readTier)
-/

namespace SceneScript.Expr

variable {sym : Symbols}

/-! ## More budget -/

theorem read_succ (fuel : Nat) :
    (∀ {tier cs r}, readTier sym fuel tier cs = .ok r → readTier sym (fuel + 1) tier cs = .ok r) ∧
    ∀ {tier left cs r}, readChain sym fuel tier left cs = .ok r →
      readChain sym (fuel + 1) tier left cs = .ok r := by
  induction fuel with
  | zero => exact ⟨fun h => by simp [readTier] at h, fun h => by simp [readChain] at h⟩
  | succ fuel ih =>
    obtain ⟨ihtier, ihchain⟩ := ih
    refine ⟨?_, ?_⟩
    · intro tier cs r h
      rcases tier.shape with ht | ht | rfl | rfl
      · obtain ⟨left, rest, hleft, hrest⟩ := (readTier_chain_eq_ok_iff ht).1 h
        exact (readTier_chain_eq_ok_iff ht).2 ⟨left, rest, ihtier hleft, ihchain hrest⟩
      · refine (readTier_lead_eq_ok_iff ht).2 ?_
        obtain ⟨hl, hread⟩ | ⟨mid, e, rest, hl, hread, he⟩ := (readTier_lead_eq_ok_iff ht).1 h
        · exact .inl ⟨hl, ihtier hread⟩
        · exact .inr ⟨mid, e, rest, hl, ihtier hread, he⟩
      · refine readTier_comparison_eq_ok_iff.2 ?_
        obtain ⟨left, rest, hleft, hrest⟩ := readTier_comparison_eq_ok_iff.1 h
        refine ⟨left, rest, ihtier hleft, hrest.imp_right ?_⟩
        rintro ⟨op, mid, right, tail, hop, hright, he⟩
        exact ⟨op, mid, right, tail, hop, ihtier hright, he⟩
      · refine readTier_primary_eq_ok_iff.2 ?_
        obtain ⟨c, tail, htrim, hrest⟩ := readTier_primary_eq_ok_iff.1 h
        refine ⟨c, tail, htrim, hrest.imp_right ?_⟩
        rintro ⟨close, e, mid, rest, hclose, hread, hmid, he⟩
        exact ⟨close, e, mid, rest, hclose, ihtier hread, hmid, he⟩
    · intro tier left cs r h
      refine readChain_eq_ok_iff.2 ((readChain_eq_ok_iff.1 h).imp_right ?_)
      rintro ⟨op, mid, right, rest, hop, hright, hrest⟩
      exact ⟨op, mid, right, rest, hop, ihtier hright, ihchain hrest⟩

theorem readTier_mono {fuel more : Nat} {tier : Tier} {cs : List Char} {r : Expr × List Char}
    (h : readTier sym fuel tier cs = .ok r) (hle : fuel ≤ more) : readTier sym more tier cs = .ok r := by
  induction hle with
  | refl => exact h
  | step _ ih => exact (read_succ _).1 ih

theorem readChain_mono {fuel more : Nat} {tier : Tier} {left : Expr} {cs : List Char}
    {r : Expr × List Char} (h : readChain sym fuel tier left cs = .ok r) (hle : fuel ≤ more) :
    readChain sym more tier left cs = .ok r := by
  induction hle with
  | refl => exact h
  | step _ ih => exact (read_succ _).2 ih

/-! ## What is read is not empty -/

theorem Spells.length_le {ls : List Lexeme} {cs rest : List Char} (h : Spells sym ls cs rest) :
    rest.length ≤ cs.length := by
  induction h with
  | nil _ => simp
  | cons _ _ _ ih =>
    simp only [List.length_append]
    omega

theorem Spells.length_lt {l : Lexeme} {ls : List Lexeme} {cs rest : List Char}
    (h : Spells sym (l :: ls) cs rest) (hl : ∀ {text tail}, l.Spelled sym text tail → text ≠ []) :
    rest.length < cs.length := by
  cases h with
  | cons _ hspelled hls =>
    have := hls.length_le
    have := List.length_pos_iff.2 (hl hspelled)
    simp only [List.length_append]
    omega

theorem IsAtom.spelled_ne_nil {l : Lexeme} {e : Expr} (h : IsAtom l e) {text tail : List Char}
    (hl : l.Spelled sym text tail) : text ≠ [] := by
  cases h with
  | var name => simp [hl.1]
  | text s =>
    obtain ⟨q, -, rfl, -⟩ := hl
    simp
  | yes | no => simp [hl.1]
  | integer n => exact hl.1.1
  | decimal x =>
    obtain ⟨whole, fraction, rfl, -⟩ := hl
    simp

theorem Derives.length_lt {tier : Tier} {ls : List Lexeme} {e : Expr} (h : Derives sym tier ls e) :
    ∀ {cs rest : List Char}, Spells sym ls cs rest → rest.length < cs.length := by
  induction h with
  | stronger _ _ ih => exact ih
  | chain _ _ _ _ ih _ =>
    intro cs rest hspells
    obtain ⟨mid, hleft, hright⟩ := hspells.of_append
    exact Nat.lt_of_le_of_lt hright.length_le (ih hleft)
  | comparison _ _ _ ih _ =>
    intro cs rest hspells
    obtain ⟨mid, hleft, hright⟩ := hspells.of_append
    exact Nat.lt_of_le_of_lt hright.length_le (ih hleft)
  | not _ _ ih =>
    intro cs rest hspells
    obtain ⟨mid, hleft, hright⟩ := hspells.of_cons
    exact Nat.lt_of_lt_of_le (ih hright) hleft.length_le
  | neg _ ih =>
    intro cs rest hspells
    obtain ⟨mid, hleft, hright⟩ := hspells.of_cons
    exact Nat.lt_of_lt_of_le (ih hright) hleft.length_le
  | bracket _ _ _ => exact fun hspells => hspells.length_lt (by rintro _ _ rfl; simp)
  | atom h => exact fun hspells => hspells.length_lt h.spelled_ne_nil

theorem readTier_length_lt {fuel : Nat} {tier : Tier} {cs rest : List Char} {e : Expr}
    (h : readTier sym fuel tier cs = .ok (e, rest)) : rest.length < cs.length := by
  obtain ⟨ls, hls, hspells⟩ := derives_of_readTier h
  exact hls.length_lt hspells

theorem Tier.operator?_length_le {tier : Tier} {cs mid : List Char} {op : BinaryOp}
    (h : tier.operator? cs = some (op, mid)) : mid.length ≤ cs.length := by
  obtain ⟨l, -, hspells⟩ := spelled_of_operator? .english h
  exact hspells.length_le

theorem Tier.leading?_length_lt {tier : Tier} {cs mid : List Char} (h : tier.leading? cs = some mid) :
    mid.length < cs.length := by
  obtain ⟨t, ht, hspells⟩ := spelled_of_leading? .english h
  refine hspells.length_lt ?_
  intro text tail hl
  cases tier <;> simp only [leading, List.mem_cons, List.not_mem_nil, or_false] at ht
  · rcases ht with rfl | rfl <;> exact fun h => absurd (hl.1.symm.trans h) (by decide)
  · subst ht
    exact fun h => absurd (hl.1.symm.trans h) (by decide)

/-! ## Enough budget -/

theorem read_enough (fuel : Nat) :
    (∀ {tier cs r}, readTier sym fuel tier cs = .ok r →
      readTier sym (10 * cs.length + tier.cost) tier cs = .ok r) ∧
    ∀ {tier left cs r}, readChain sym fuel tier left cs = .ok r →
      readChain sym (10 * cs.length + 9) tier left cs = .ok r := by
  induction fuel with
  | zero => exact ⟨fun h => by simp [readTier] at h, fun h => by simp [readChain] at h⟩
  | succ fuel ih =>
    obtain ⟨ihtier, ihchain⟩ := ih
    -- the budget for a call covers each call it makes, which is for a stronger tier or for less text
    have hcost : ∀ tier : Tier, 1 ≤ tier.cost ∧ tier.cost ≤ 8 := by
      intro tier
      cases tier <;> decide
    refine ⟨?_, ?_⟩
    · intro tier cs r h
      have hpos := hcost tier
      obtain ⟨m, hm⟩ : ∃ m, 10 * cs.length + tier.cost = m + 1 := ⟨_, (Nat.sub_add_cancel (by omega)).symm⟩
      have htrim := Text.length_trimStart_le cs
      rw [hm]
      rcases tier.shape with ht | ht | rfl | rfl
      · obtain ⟨left, rest, hleft, hrest⟩ := (readTier_chain_eq_ok_iff ht).1 h
        have hlt := readTier_length_lt hleft
        have := Tier.cost_next ht.ne_primary
        exact (readTier_chain_eq_ok_iff ht).2
          ⟨left, rest, readTier_mono (ihtier hleft) (by omega), readChain_mono (ihchain hrest) (by omega)⟩
      · refine (readTier_lead_eq_ok_iff ht).2 ?_
        obtain ⟨hl, hread⟩ | ⟨mid, e, rest, hl, hread, he⟩ := (readTier_lead_eq_ok_iff ht).1 h
        · have := Tier.cost_next (Tier.ne_primary_of_lead ht)
          exact .inl ⟨hl, readTier_mono (ihtier hread) (by omega)⟩
        · have := Tier.leading?_length_lt hl
          exact .inr ⟨mid, e, rest, hl, readTier_mono (ihtier hread) (by omega), he⟩
      · refine readTier_comparison_eq_ok_iff.2 ?_
        obtain ⟨left, rest, hleft, hrest⟩ := readTier_comparison_eq_ok_iff.1 h
        have hlt := readTier_length_lt hleft
        simp only [Tier.cost] at hm
        refine ⟨left, rest, readTier_mono (ihtier hleft) (by simp only [Tier.cost]; omega),
          hrest.imp_right ?_⟩
        rintro ⟨op, mid, right, tail, hop, hright, he⟩
        have := Tier.operator?_length_le hop
        have := Text.length_trimStart_le rest
        exact ⟨op, mid, right, tail, hop,
          readTier_mono (ihtier hright) (by simp only [Tier.cost]; omega), he⟩
      · refine readTier_primary_eq_ok_iff.2 ?_
        obtain ⟨c, tail, hcs, hrest⟩ := readTier_primary_eq_ok_iff.1 h
        rw [hcs, List.length_cons] at htrim
        refine ⟨c, tail, hcs, hrest.imp_right ?_⟩
        rintro ⟨close, e, mid, rest, hclose, hread, hmid, he⟩
        exact ⟨close, e, mid, rest, hclose,
          readTier_mono (ihtier hread) (by simp only [Tier.cost]; omega), hmid, he⟩
    · intro tier left cs r h
      refine readChain_eq_ok_iff.2 ((readChain_eq_ok_iff.1 h).imp_right ?_)
      rintro ⟨op, mid, right, rest, hop, hright, hrest⟩
      have := Tier.operator?_length_le hop
      have := Text.length_trimStart_le cs
      have := readTier_length_lt hright
      have := hcost tier.next
      exact ⟨op, mid, right, rest, hop, readTier_mono (ihtier hright) (by omega),
        readChain_mono (ihchain hrest) (by omega)⟩

/-- The budget of the reader is enough. -/
theorem readOperand_of_readTier {fuel : Nat} {cs : List Char} {r : Expr × List Char}
    (h : readTier sym fuel .disjunction cs = .ok r) : readOperand sym cs = .ok r := by
  refine readTier_mono ((read_enough fuel).1 h) ?_
  simp only [Tier.cost, budget]
  omega

end SceneScript.Expr
