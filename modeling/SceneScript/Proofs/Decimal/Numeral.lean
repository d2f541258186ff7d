import Mathlib.Data.List.Basic
import SceneScript.Json.Basic

/-!
# Proper numerals

A numeral is proper if it has a digit before the point, and a zero there only alone.  These are the numerals that
JSON has; integers and finite values are written as such.

    (Numeral.ofFloat style x).IsProper                               (isProper_ofFloat)
-/

namespace SceneScript.Decimal

/-- Digits on both sides of the point, with no zeros in front. -/
structure Numeral.IsProper (n : Numeral) : Prop where
  whole_ne_nil : n.whole ≠ []
  isDigit_whole : ∀ c ∈ n.whole, c.isDigit = true
  no_leading_zero : n.whole.head? = some '0' → n.whole = ['0']
  isDigit_fraction : ∀ c ∈ n.fraction, c.isDigit = true

theorem isDigit_of_mem_natText {n : Nat} {c : Char} (h : c ∈ natText n) : c.isDigit = true :=
  Nat.isDigit_of_mem_toDigits (by decide) (by decide) h

theorem ofDigits_natText (n : Nat) : ofDigits (natText n) = n := Nat.ofDigitChars_ten_toDigits

theorem head?_natText {n : Nat} (h : n ≠ 0) : (natText n).head? ≠ some '0' := by
  induction n using Nat.strongRecOn with
  | ind n ih =>
    unfold natText
    by_cases hn : n < 10
    · have hall : ∀ d : Fin 10, d.val ≠ 0 → Nat.digitChar d ≠ '0' := by decide
      rw [Nat.toDigits_of_lt_base hn]
      simpa using hall ⟨n, hn⟩ h
    · rw [Nat.toDigits_of_base_le (by decide) (by omega), List.head?_append_of_ne_nil _ Nat.toDigits_ne_nil]
      exact ih (n / 10) (by omega) (by omega)

/-- The digits of a number have no zero in front, but for zero itself. -/
theorem natText_of_head? {n : Nat} (h : (natText n).head? = some '0') : natText n = ['0'] := by
  by_cases hn : n = 0
  · rw [hn]
    rfl
  · exact absurd h (head?_natText hn)

theorem isProper_ofNat (negative : Bool) (n : Nat) : (Numeral.mk negative (natText n) [] none).IsProper where
  whole_ne_nil := Nat.toDigits_ne_nil
  isDigit_whole _ := isDigit_of_mem_natText
  no_leading_zero := natText_of_head?
  isDigit_fraction := by simp

/-! ## Layouts -/

/-- A decimal with digits, or zero as it is. -/
def Scaled.IsReduced (d : Scaled) : Prop := d.digits = 0 → d.exp = 0

theorem Scaled.isReduced_of_digits {d : Scaled} (h : d.digits ≠ 0) : d.IsReduced := fun h0 => absurd h0 h

theorem isProper_layout {d : Scaled} (hd : d.IsReduced) (style : FloatStyle) (negative : Bool) :
    (d.layout style negative).IsProper := by
  have hne : natText d.digits ≠ [] := Nat.toDigits_ne_nil
  have hlen : 0 < (natText d.digits).length := List.length_pos_iff.2 hne
  unfold Scaled.layout
  simp only
  split
  · -- one digit before the point
    refine ⟨by simp [hne], fun c hc => isDigit_of_mem_natText (List.mem_of_mem_take hc), ?_,
      fun c hc => isDigit_of_mem_natText (List.mem_of_mem_drop hc)⟩
    cases natText d.digits <;> simp
  · split
    · refine ⟨by simp [hne], fun c hc => ?_, ?_, fun c hc => ?_⟩
      · rcases List.mem_append.1 hc with hc | hc
        · exact isDigit_of_mem_natText hc
        · rw [List.eq_of_mem_replicate hc]
          rfl
      · intro hzero
        rw [List.head?_append_of_ne_nil _ hne] at hzero
        have h0 : d.digits = 0 := Decidable.not_not.1 fun h => head?_natText h hzero
        rw [h0, hd h0]
        rfl
      · split at hc
        · rw [List.mem_singleton.1 hc]
          rfl
        · cases hc
    · rename_i hexp
      have hdigits : d.digits ≠ 0 := fun h => hexp (Int.le_of_eq (hd h).symm)
      split
      · rename_i hlead
        have htake : (natText d.digits).take (d.exp + (natText d.digits).length - 1 + 1).toNat ≠ [] := by
          rw [ne_eq, List.take_eq_nil_iff, not_or]
          exact ⟨by omega, hne⟩
        refine ⟨htake, fun c hc => isDigit_of_mem_natText (List.mem_of_mem_take hc), fun hzero => ?_,
          fun c hc => isDigit_of_mem_natText (List.mem_of_mem_drop hc)⟩
        rw [List.head?_take, if_neg (by omega)] at hzero
        exact absurd hzero (head?_natText hdigits)
      · refine ⟨List.cons_ne_nil _ _, fun c hc => by rw [List.mem_singleton.1 hc]; rfl, fun _ => rfl, fun c hc => ?_⟩
        rcases List.mem_append.1 hc with hc | hc
        · rw [List.eq_of_mem_replicate hc]
          rfl
        · exact isDigit_of_mem_natText hc

/-! ## Shortest decimals -/

theorem compareScaled_zero {n : Nat} (hn : 0 < n) (i j : Int) : compareScaled 0 i n j = .lt := by
  unfold compareScaled
  rw [Nat.zero_mul, Nat.zero_mul, Nat.compare_eq_lt]
  exact Nat.mul_pos (Nat.mul_pos hn (Nat.pow_pos (by decide))) (Nat.pow_pos (by decide))

/-- Zero does not read back as a positive value. -/
theorem digits_ne_zero_of_readsBack {x : Binary} (hx : x.m ≠ 0) {d : Scaled} (h : x.readsBack d = true) :
    d.digits ≠ 0 := by
  intro h0
  unfold Binary.readsBack at h
  simp only [h0] at h
  rw [compareScaled_zero (by split <;> omega)] at h
  simp at h

theorem digits_ne_zero_of_onGrid {x : Binary} (hx : x.m ≠ 0) {tie : Tie} {g : Int} {d : Scaled}
    (h : x.onGrid tie g = some d) : d.digits ≠ 0 := by
  unfold Binary.onGrid at h
  simp only at h
  generalize x.m * Nat.pow 2 x.q.toNat * Nat.pow 10 (-g).toNat /
    (Nat.pow 2 (-x.q).toNat * Nat.pow 10 g.toNat) = below at h
  have hlow : x.readsBack ⟨below, g⟩ = true → (⟨below, g⟩ : Scaled).digits ≠ 0 := digits_ne_zero_of_readsBack hx
  have hhigh : (⟨below + 1, g⟩ : Scaled).digits ≠ 0 := Nat.succ_ne_zero below
  split at h
  · rename_i hr _
    cases h
    exact hlow hr
  · cases h
    exact hhigh
  · cases h
  · rename_i hr _
    split at h
    · cases h
      exact hlow hr
    · cases h
      exact hhigh
    · split at h
      · cases h
        exact hhigh
      · cases h
        split
        · exact hlow hr
        · exact hhigh

theorem digits_exact {x : Binary} (hx : x.m ≠ 0) : x.exact.digits ≠ 0 := by
  unfold Binary.exact
  split <;> exact Nat.mul_ne_zero hx (Nat.ne_of_gt (Nat.pow_pos (by decide)))

theorem digits_strip {d : Scaled} (fuel : Nat) (hd : d.digits ≠ 0) : (d.strip fuel).digits ≠ 0 := by
  induction fuel generalizing d with
  | zero => exact hd
  | succ fuel ih =>
    rw [Scaled.strip]
    split
    · apply ih
      show d.digits / 10 ≠ 0
      omega
    · exact hd

theorem digits_findSome? {x : Binary} (hx : x.m ≠ 0) (tie : Tie) (grid : Nat → Int) (places : List Nat) :
    ((places.findSome? fun n => x.onGrid tie (grid n)).getD x.exact).digits ≠ 0 := by
  cases hfound : places.findSome? fun n => x.onGrid tie (grid n) with
  | none => exact digits_exact hx
  | some d =>
    obtain ⟨n, -, hn⟩ := List.exists_of_findSome?_eq_some hfound
    exact digits_ne_zero_of_onGrid hx hn

theorem isReduced_shortest (x : Binary) (tie : Tie) : (x.shortest tie).IsReduced := by
  by_cases hx : x.m = 0
  · rw [Binary.shortest, if_pos hx]
    exact fun _ => rfl
  · have hfound := digits_findSome? hx tie (fun n => x.scale - (n + 1 : Nat)) (List.range 17)
    rw [Binary.shortest, if_neg hx]
    simp only
    exact Scaled.isReduced_of_digits (digits_strip _ hfound)

/-- A value is written as a proper numeral, in every style. -/
theorem isProper_ofFloat (style : FloatStyle) (x : Float) : (Numeral.ofFloat style x).IsProper :=
  isProper_layout (isReduced_shortest _ _) style _

end SceneScript.Decimal
