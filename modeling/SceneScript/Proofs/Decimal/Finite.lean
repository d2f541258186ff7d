import Mathlib.Algebra.Ring.Int.Defs
import Mathlib.Algebra.Ring.Nat
import SceneScript.Json.Decode

/-!
# Numerals are read as finite values

A numeral is read from at most 64 bits of leading digits, scaled by powers of ten.  Scaling up is checked; scaling
down divides by powers of ten that are not less than one half, so the exponents of the values on the way stay
bounded, however long the numeral is.

    n.toFloat? = some x → x.isFinite                                  (isFinite_of_toFloat?)
-/

namespace SceneScript.Decimal

open Float.Model Float.Model.UnpackedFloat

/-- Zero, or finite with an exponent of at most `k`. -/
inductive AtMost (k : Int) : UnpackedFloat → Prop
  | zero (s : Sign) : AtMost k (.zero s)
  | finite {s : Sign} {m : Nat} {e : Int} {hm : 0 < m} (h : e ≤ k) : AtMost k (.finite s m e hm)

/-- Infinite, or finite with an exponent of at least `k`. -/
inductive AtLeast (k : Int) : UnpackedFloat → Prop
  | infinity (s : Sign) : AtLeast k (.infinity s)
  | finite {s : Sign} {m : Nat} {e : Int} {hm : 0 < m} (h : k ≤ e) : AtLeast k (.finite s m e hm)

instance (k : Int) (u : UnpackedFloat) : Decidable (AtMost k u) :=
  match u with
  | .zero s => .isTrue (.zero s)
  | .finite _ _ e _ => decidable_of_iff (e ≤ k) ⟨.finite, fun | .finite h => h⟩
  | .infinity _ | .notANumber => .isFalse nofun

instance (k : Int) (u : UnpackedFloat) : Decidable (AtLeast k u) :=
  match u with
  | .infinity s => .isTrue (.infinity s)
  | .finite _ _ e _ => decidable_of_iff (k ≤ e) ⟨.finite, fun | .finite h => h⟩
  | .zero _ | .notANumber => .isFalse nofun

theorem AtMost.mono {k l : Int} {u : UnpackedFloat} (h : AtMost k u) (hle : k ≤ l) : AtMost l u := by
  cases h with
  | zero s => exact .zero s
  | finite h => exact .finite (Int.le_trans h hle)

/-! ## Rounding -/

theorem mantissa_shiftRight (em : ExtendedMantissa) (n : Nat) : (em >>> n).mantissa = em.mantissa / 2 ^ n := by
  show (Nat.repeat ExtendedMantissa.shiftRightOne n em).mantissa = em.mantissa / 2 ^ n
  induction n with
  | zero => simp [Nat.repeat]
  | succ n ih =>
    show (Nat.repeat ExtendedMantissa.shiftRightOne n em).mantissa / 2 = em.mantissa / 2 ^ (n + 1)
    rw [ih, Nat.div_div_eq_div_mul, Nat.pow_succ]

theorem mantissa_ofMantissaAndAccuracy (m : Nat) (a : Accuracy) :
    (ExtendedMantissa.ofMantissaAndAccuracy m a).mantissa = m := by
  unfold ExtendedMantissa.ofMantissaAndAccuracy
  split <;> rfl

theorem roundedMantissa_bounds (em : ExtendedMantissa) :
    em.mantissa ≤ em.roundedMantissa ∧ em.roundedMantissa ≤ em.mantissa + 1 := by
  unfold ExtendedMantissa.roundedMantissa Accuracy.roundToNearestEven
  split <;> omega

/-- How far a mantissa is shifted, so that it has at most 53 bits and its exponent is not too small. -/
def shiftOf (m : Nat) (e : Int) : Nat := (max ((m.log2 : Int) + 1 + e - 53) (-1074) - e).toNat

theorem shiftToTargetExponent_eq (m : Nat) (e : Int) (a : Accuracy) :
    (shiftToTargetExponent Format.binary64 m e a).1.mantissa = m / 2 ^ shiftOf m e ∧
      (shiftToTargetExponent Format.binary64 m e a).2 = e + shiftOf m e := by
  constructor
  · show (ExtendedMantissa.ofMantissaAndAccuracy m a >>> shiftOf m e).mantissa = m / 2 ^ shiftOf m e
    rw [mantissa_shiftRight, mantissa_ofMantissaAndAccuracy]
  · rfl

theorem shiftOf_le {m : Nat} {e k : Int} {b : Nat} (hm : m < 2 ^ b) (hb : b ≠ 0) (he : e ≤ k) (hk : b + e ≤ k + 53)
    (hmin : -1074 ≤ k) : e + shiftOf m e ≤ k := by
  have hlog : m.log2 < b := by
    by_cases h0 : m = 0
    · subst h0
      simp only [Nat.log2_zero]
      omega
    · exact (Nat.log2_lt h0).2 hm
  unfold shiftOf
  omega

/-- A mantissa of at most `b` bits is rounded to a value whose exponent is not much greater than it has to be. -/
theorem atMost_roundWithAccuracy {m : Nat} {e k : Int} {b : Nat} (s : Sign) (a : Accuracy) (hm : m < 2 ^ b)
    (hb : b ≠ 0) (he : e ≤ k) (hk : b + e ≤ k + 52) (hmin : -1074 ≤ k) :
    AtMost k (roundWithAccuracy Format.binary64 s m e a) := by
  obtain ⟨hfst, hsnd⟩ := shiftToTargetExponent_eq m e a
  have hle := roundedMantissa_bounds (shiftToTargetExponent Format.binary64 m e a).1
  have hfirst := shiftOf_le hm hb he (by omega) hmin
  unfold roundWithAccuracy
  generalize hp : shiftToTargetExponent Format.binary64 m e a = p at *
  obtain ⟨em, e₁⟩ := p
  dsimp only at hfst hsnd hle ⊢
  -- rounding up adds one bit at most, and the first shift has taken as many bits as it has raised the exponent
  have hround : em.roundedMantissa < 2 ^ (b - shiftOf m e + 1) := by
    have hlt : em.mantissa < 2 ^ (b - shiftOf m e) := by
      rw [hfst]
      by_cases hs : shiftOf m e ≤ b
      · apply Nat.div_lt_of_lt_mul
        rwa [← Nat.pow_add, Nat.add_sub_cancel' hs]
      · rw [Nat.div_eq_of_lt (Nat.lt_trans hm (Nat.pow_lt_pow_right (by omega) (by omega)))]
        exact Nat.two_pow_pos _
    have : 2 ^ (b - shiftOf m e + 1) = 2 ^ (b - shiftOf m e) * 2 := Nat.pow_succ _ _
    omega
  obtain ⟨-, hsnd₂⟩ := shiftToTargetExponent_eq em.roundedMantissa e₁ .exact
  have hsecond : e₁ + shiftOf em.roundedMantissa e₁ ≤ k :=
    shiftOf_le hround (by omega) (by omega) (by omega) hmin
  by_cases hzero : (shiftToTargetExponent Format.binary64 em.roundedMantissa e₁ .exact).1.mantissa = 0
  · rw [dif_pos hzero]
    exact .zero s
  · rw [dif_neg hzero]
    exact .finite (by omega)

theorem two_pow_le_shifted {m : Nat} (hm : 2 ^ 52 ≤ m) :
    2 ^ 52 ≤ m / 2 ^ (m.log2 - 52) ∧ m / 2 ^ (m.log2 - 52) < 2 ^ 53 := by
  have hlog : 52 ≤ m.log2 := (Nat.le_log2 (by omega)).2 hm
  constructor
  · rw [Nat.le_div_iff_mul_le (Nat.two_pow_pos _), ← Nat.pow_add, Nat.add_sub_cancel' hlog]
    exact Nat.log2_self_le (by omega)
  · apply Nat.div_lt_of_lt_mul
    rw [← Nat.pow_add, show m.log2 - 52 + 53 = m.log2 + 1 by omega]
    exact Nat.lt_log2_self

/-- A mantissa of 53 bits or more is rounded to one of 53 bits. -/
theorem roundWithAccuracy_eq_finite {m : Nat} {e : Int} (s : Sign) (a : Accuracy) (hm : 2 ^ 52 ≤ m) (he : -1074 ≤ e) :
    ∃ m' e' hm', roundWithAccuracy Format.binary64 s m e a = .finite s m' e' hm' ∧ m'.log2 = 52 ∧ e ≤ e' := by
  have hshift {n : Nat} {x : Int} (hn : 2 ^ 52 ≤ n) (hx : -1074 ≤ x) : shiftOf n x = n.log2 - 52 := by
    have hlog : 52 ≤ n.log2 := (Nat.le_log2 (by omega)).2 hn
    unfold shiftOf
    omega
  obtain ⟨hfst, hsnd⟩ := shiftToTargetExponent_eq m e a
  have hle := roundedMantissa_bounds (shiftToTargetExponent Format.binary64 m e a).1
  have hbounds := two_pow_le_shifted hm
  unfold roundWithAccuracy
  generalize hp : shiftToTargetExponent Format.binary64 m e a = p at *
  obtain ⟨em, e₁⟩ := p
  dsimp only at hfst hsnd hle ⊢
  rw [hshift hm he] at hfst hsnd
  have hround : 2 ^ 52 ≤ em.roundedMantissa := by omega
  obtain ⟨hfst₂, hsnd₂⟩ := shiftToTargetExponent_eq em.roundedMantissa e₁ .exact
  rw [hshift hround (by omega)] at hfst₂ hsnd₂
  have hfinal := two_pow_le_shifted hround
  rw [← hfst₂] at hfinal
  rw [dif_neg (by omega)]
  exact ⟨_, _, by omega, rfl, (Nat.log2_eq_iff (by omega)).2 hfinal, by omega⟩

/-! ## Packing -/

/-- The exponent field of a packed value. -/
def field (b : BitVec 64) : BitVec 11 := @unpackExponent Format.binary64 b

/-- The mantissa field of a packed value. -/
def fraction (b : BitVec 64) : BitVec 52 := @unpackMantissa Format.binary64 b

theorem field_packComponents (s : Sign) (x : BitVec 11) (y : BitVec 52) :
    field (packComponents Format.binary64 s x y) = x := unpackExponent_packComponents

theorem fraction_packComponents (s : Sign) (x : BitVec 11) (y : BitVec 52) :
    fraction (packComponents Format.binary64 s x y) = y := unpackMantissa_packComponents

/-- What bits stand for: all ones in the exponent field for what is not finite, and all zeros for the values next to
zero, which share the least exponent with those above them. -/
theorem unpack_cases (b : BitVec 64) :
    (field b = -1#11 ∧ fraction b = 0#52 ∧ ∃ s, UnpackedFloat.unpack Format.binary64 b = .infinity s) ∨
      (field b = -1#11 ∧ fraction b ≠ 0#52 ∧ UnpackedFloat.unpack Format.binary64 b = .notANumber) ∨
      (field b = 0#11 ∧ ∃ s, UnpackedFloat.unpack Format.binary64 b = .zero s) ∨
      (field b ≠ -1#11 ∧ ∃ s m e hm, UnpackedFloat.unpack Format.binary64 b = .finite s m e hm ∧ m < 2 ^ 53 ∧
        e = max ((field b).toNat : Int) 1 - 1075) := by
  unfold UnpackedFloat.unpack
  dsimp only
  by_cases hones : field b = -1#11
  · rw [if_pos (show @unpackExponent Format.binary64 b = -1#11 from hones)]
    by_cases hzero : fraction b = 0#52
    · rw [if_pos (show @unpackMantissa Format.binary64 b = 0#52 from hzero)]
      exact .inl ⟨hones, hzero, _, rfl⟩
    · rw [if_neg (show ¬ @unpackMantissa Format.binary64 b = 0#52 from hzero)]
      exact .inr (.inl ⟨hones, hzero, rfl⟩)
  · rw [if_neg (show ¬ @unpackExponent Format.binary64 b = -1#11 from hones)]
    by_cases hzeros : field b = 0#11
    · rw [if_pos (show @unpackExponent Format.binary64 b = 0#11 from hzeros)]
      by_cases hzero : fraction b = 0#52
      · rw [dif_pos (show @unpackMantissa Format.binary64 b = 0#52 from hzero)]
        exact .inr (.inr (.inl ⟨hzeros, _, rfl⟩))
      · rw [dif_neg (show ¬ @unpackMantissa Format.binary64 b = 0#52 from hzero)]
        have hlt : (fraction b).toNat < 2 ^ 53 := Nat.lt_trans (fraction b).isLt (by decide)
        have hexp : ((field b).toNat : Int) - (1023 + 52) + 1 = max ((field b).toNat : Int) 1 - 1075 := by
          rw [hzeros]
          decide
        have hm : 0 < (fraction b).toNat := Nat.pos_of_ne_zero fun h => hzero (BitVec.eq_of_toNat_eq h)
        exact .inr (.inr (.inr ⟨hones, _, _, _, hm, rfl, hlt, hexp⟩))
    · rw [if_neg (show ¬ @unpackExponent Format.binary64 b = 0#11 from hzeros)]
      have hpos : (field b).toNat ≠ 0 := fun h => hzeros (BitVec.eq_of_toNat_eq h)
      have hexp : ((field b).toNat : Int) - (1023 + 52) = max ((field b).toNat : Int) 1 - 1075 := by omega
      have hm : 0 < (1#1 ++ fraction b).toNat := by
        rw [BitVec.toNat_append]
        exact Nat.lt_of_lt_of_le (by decide : 0 < (1#1).toNat <<< 52) Nat.left_le_or
      exact .inr (.inr (.inr ⟨hones, _, _, _, hm, rfl, BitVec.isLt _, hexp⟩))

theorem atMost_unpack {b : BitVec 64} {k : Int} (h : field b ≠ -1#11) (hk : (field b).toNat ≤ k + 1075)
    (hmin : -1074 ≤ k) : AtMost k (UnpackedFloat.unpack Format.binary64 b) := by
  obtain ⟨hones, -⟩ | ⟨hones, -⟩ | ⟨-, s, hu⟩ | ⟨-, s, m, e, hm, hu, -, he⟩ := unpack_cases b
  · exact absurd hones h
  · exact absurd hones h
  · rw [hu]
    exact .zero s
  · rw [hu]
    exact .finite (by omega)

theorem atLeast_unpack {b : BitVec 64} {k : Int} (h0 : field b ≠ 0#11) (h : field b = -1#11 → fraction b = 0#52)
    (hk : k + 1075 ≤ (field b).toNat) : AtLeast k (UnpackedFloat.unpack Format.binary64 b) := by
  obtain ⟨-, -, s, hu⟩ | ⟨hones, hfraction, -⟩ | ⟨hzeros, -⟩ | ⟨-, s, m, e, hm, hu, -, he⟩ := unpack_cases b
  · rw [hu]
    exact .infinity s
  · exact absurd (h hones) hfraction
  · exact absurd hzeros h0
  · rw [hu]
    exact .finite (by omega)

theorem isFinite_iff (x : Float) : x.isFinite = true ↔ AtMost 971 x.toModel.unpack := by
  show (UnpackedFloat.unpack Format.binary64 x.toModel.toBits.toBitVec).isFinite = true ↔
    AtMost 971 (UnpackedFloat.unpack Format.binary64 x.toModel.toBits.toBitVec)
  generalize x.toModel.toBits.toBitVec = b
  obtain ⟨-, -, s, hu⟩ | ⟨-, -, hu⟩ | ⟨-, s, hu⟩ | ⟨hones, s, m, e, hm, hu, -, he⟩ := unpack_cases b
  · rw [hu]
    constructor <;> intro hfinite <;> cases hfinite
  · rw [hu]
    constructor <;> intro hfinite <;> cases hfinite
  · rw [hu]
    exact ⟨fun _ => .zero s, fun _ => rfl⟩
  · have hfield := (field b).isLt
    have hne : (field b).toNat ≠ 2047 := fun h => hones (BitVec.eq_of_toNat_eq h)
    rw [hu]
    exact ⟨fun _ => .finite (by omega), fun _ => rfl⟩

theorem mantissa_lt_of_unpack {x : Float.Model} {s : Sign} {m : Nat} {e : Int} {hm : 0 < m}
    (h : x.unpack = .finite s m e hm) : m < 2 ^ 53 := by
  change UnpackedFloat.unpack Format.binary64 x.toBits.toBitVec = _ at h
  obtain ⟨-, -, t, hu⟩ | ⟨-, -, hu⟩ | ⟨-, t, hu⟩ | ⟨-, t, n, f, hn, hu, hlt, -⟩ := unpack_cases x.toBits.toBitVec
  · rw [hu] at h
    cases h
  · rw [hu] at h
    cases h
  · rw [hu] at h
    cases h
  · rw [hu] at h
    cases h
    exact hlt

theorem pack_finite (s : Sign) (m : Nat) (e : Int) (hm : 0 < m) :
    UnpackedFloat.pack Format.binary64 (.finite s m e hm) =
      if 2047 ≤ (e + 1075).toNat then packComponents Format.binary64 s (-1#11) 0#52
      else packComponents Format.binary64 s (if m.log2 = 52 then BitVec.ofNat 11 (e + 1075).toNat else 0#11)
        (BitVec.ofNat 52 m) := by
  have hbias : e + (Format.binary64.exponentBias : Int) + (52 : Nat) = e + 1075 := Int.add_assoc e 1023 52
  have hbits : m.log2 + 1 = Format.binary64.mantissaBits ↔ m.log2 = 52 := Nat.succ_inj (b := 52)
  unfold UnpackedFloat.pack
  simp only [hbias, hbits, Nat.reducePow, Nat.reduceLeDiff]
  by_cases hlog : m.log2 = 52 <;> simp [hlog, packedInfinity]

theorem atMost_unpack_pack {u : UnpackedFloat} {k : Int} (h : AtMost k u) (hmin : -1074 ≤ k) (hmax : k ≤ 971) :
    AtMost k (Float.Model.pack u).unpack := by
  show AtMost k (UnpackedFloat.unpack Format.binary64 (UnpackedFloat.pack Format.binary64 u))
  cases h with
  | zero s =>
    have hf : field (UnpackedFloat.pack Format.binary64 (.zero s)) = 0#11 := field_packComponents ..
    exact atMost_unpack (by rw [hf]; decide) (by rw [hf]; simp; omega) hmin
  | @finite s m e hm he =>
    have hf : (field (UnpackedFloat.pack Format.binary64 (.finite s m e hm))).toNat ≤ (e + 1075).toNat := by
      rw [pack_finite, if_neg (by omega), field_packComponents]
      split
      · rw [BitVec.toNat_ofNat]
        omega
      · simp
    refine atMost_unpack (fun hne => ?_) (by omega) hmin
    rw [hne] at hf
    have : (2047 : Nat) ≤ (e + 1075).toNat := hf
    omega

/-- A value with 53 bits of mantissa, and not a small one, keeps its exponent or becomes infinite. -/
theorem atLeast_unpack_pack {s : Sign} {m : Nat} {e k : Int} {hm : 0 < m} (hlog : m.log2 = 52) (hk : k ≤ e)
    (hmin : -1074 ≤ e) (hmax : k ≤ 972) : AtLeast k (Float.Model.pack (.finite s m e hm)).unpack := by
  show AtLeast k (UnpackedFloat.unpack Format.binary64 (UnpackedFloat.pack Format.binary64 (.finite s m e hm)))
  rw [pack_finite, if_pos hlog]
  split
  · have hf := field_packComponents s (-1#11) 0#52
    exact atLeast_unpack (by rw [hf]; decide) (fun _ => fraction_packComponents ..) (by rw [hf]; simp; omega)
  · rename_i hsmall
    have hf := field_packComponents s (BitVec.ofNat 11 (e + 1075).toNat) (BitVec.ofNat 52 m)
    have hn : (field (packComponents Format.binary64 s (BitVec.ofNat 11 (e + 1075).toNat) (BitVec.ofNat 52 m))).toNat =
        (e + 1075).toNat := by
      rw [hf, BitVec.toNat_ofNat]
      omega
    refine atLeast_unpack (fun h0 => ?_) (fun h1 => ?_) (by omega)
    · rw [h0] at hn
      have : 0 = (e + 1075).toNat := hn
      omega
    · rw [h1] at hn
      have : 2047 = (e + 1075).toNat := hn
      omega

/-! ## Products and quotients -/

theorem atMost_mul {x y : Float} {j k : Int} (hx : AtMost j x.toModel.unpack) (hy : AtMost k y.toModel.unpack)
    (hmin : -1128 ≤ j + k) (hmax : j + k ≤ 917) : AtMost (j + k + 54) (x * y).toModel.unpack := by
  refine atMost_unpack_pack (u := UnpackedFloat.mul Format.binary64 x.toModel.unpack y.toModel.unpack) ?_
    (by omega) (by omega)
  generalize hu : x.toModel.unpack = u at hx
  generalize hv : y.toModel.unpack = v at hy
  cases hx with
  | zero s =>
    cases hy with
    | zero t => exact .zero _
    | finite hf => exact .zero _
  | @finite s m e hm he =>
    cases hy with
    | zero t => exact .zero _
    | @finite t n f hn hf =>
      have hmn : m * n < 2 ^ 106 := by
        calc m * n < 2 ^ 53 * 2 ^ 53 := Nat.mul_lt_mul'' (mantissa_lt_of_unpack hu) (mantissa_lt_of_unpack hv)
          _ = 2 ^ 106 := by decide
      exact atMost_roundWithAccuracy _ _ hmn (by decide) (by omega) (by omega) (by omega)

theorem atMost_div {x y : Float} {k l : Int} (hx : AtMost k x.toModel.unpack) (hy : AtLeast l y.toModel.unpack)
    (hmin : -1075 ≤ k - l) (hmax : k - l ≤ 970) : AtMost (k - l + 1) (x / y).toModel.unpack := by
  refine atMost_unpack_pack (u := UnpackedFloat.div Format.binary64 x.toModel.unpack y.toModel.unpack) ?_
    (by omega) (by omega)
  generalize hu : x.toModel.unpack = u at hx
  generalize y.toModel.unpack = v at hy
  cases hx with
  | zero s =>
    cases hy with
    | infinity t => exact .zero _
    | finite hf => exact .zero _
  | @finite s m e hm he =>
    cases hy with
    | infinity t => exact .zero _
    | @finite t n f hn hf =>
      show AtMost (k - l + 1) (roundWithAccuracy Format.binary64 (s / t) (divCore Format.binary64 m e n f).1
        (divCore Format.binary64 m e n f).2.1 (divCore Format.binary64 m e n f).2.2)
      -- the quotient has as many bits more than the dividend as the dividend was shifted by
      generalize htarget : (divCore Format.binary64 m e n f).2.1 = target
      have hle : target ≤ e - f := by rw [← htarget]; exact Int.min_le_left ..
      have hq : (divCore Format.binary64 m e n f).1 < 2 ^ (53 + (e - f - target).toNat) := by
        rw [← htarget]
        calc (m <<< _) / n ≤ m <<< _ := Nat.div_le_self ..
          _ = m * 2 ^ _ := Nat.shiftLeft_eq ..
          _ < 2 ^ 53 * 2 ^ _ := Nat.mul_lt_mul_of_pos_right (mantissa_lt_of_unpack hu) (Nat.two_pow_pos _)
          _ = _ := (Nat.pow_add ..).symm
      exact atMost_roundWithAccuracy _ _ hq (by omega) (by omega) (by omega) (by omega)

/-! ## Reading a numeral -/

theorem atMost_toFloat {n : UInt64} (h : n.toNat < 2 ^ 53) : AtMost 1 n.toFloat.toModel.unpack := by
  refine atMost_unpack_pack (u := UnpackedFloat.normalize Format.binary64 n.toNat 0 .positive) ?_
    (by decide) (by decide)
  unfold UnpackedFloat.normalize
  split
  · rename_i hneg
    have := Int.compare_eq_lt.1 hneg
    omega
  · exact .zero _
  · rw [Int.toNat_natCast]
    unfold UnpackedFloat.round decreaseExponent
    simp only
    generalize (0 - Format.binary64.targetExponent (totalExponent n.toNat 0)).toNat = j
    have hlt : n.toNat <<< j < 2 ^ (53 + j) := by
      rw [Nat.shiftLeft_eq, Nat.pow_add]
      exact Nat.mul_lt_mul_of_pos_right h (Nat.two_pow_pos j)
    exact atMost_roundWithAccuracy _ _ hlt (by omega) (by omega) (by omega) (by decide)

/-- Where the power of ten is not read from a table, the product with it is rounded once. -/
theorem ofScientific_eq (n e : Nat) (hn : n ≠ 0) (he : e ≤ 2048) :
    UnpackedFloat.ofScientific Format.binary64 n e =
      roundWithAccuracy Format.binary64 .positive (n <<< 53 * 10 ^ e) (-53) .exact := by
  have hbig : ¬ (e : Int) > 2 ^ Format.binary64.exponentBits := by
    show ¬ (e : Int) > 2 ^ 11
    omega
  have hsmall : ¬ (e : Int) < -(2 ^ Format.binary64.exponentBits + (n.log2 : Int)) := by
    show ¬ (e : Int) < -(2 ^ 11 + (n.log2 : Int))
    omega
  unfold UnpackedFloat.ofScientific
  rw [dif_neg hn, if_neg hbig, if_neg hsmall, if_pos (Int.natCast_nonneg e)]
  rfl

theorem atMost_ofNat {n : Nat} (h : n < 2 ^ 64) : AtMost 12 (Float.ofNat n).toModel.unpack := by
  show AtMost 12 (Float.ofScientific n false 0).toModel.unpack
  unfold Float.ofScientific
  split
  · rename_i hsmall
    have hn : n.toUInt64.toNat < 2 ^ 53 := by
      rw [Nat.toUInt64_eq, UInt64.toNat_ofNat']
      omega
    have hone : AtMost (-52) (Float.exactlyRepresentablePowersOfTen[0]).toModel.unpack := by decide +kernel
    exact (atMost_mul (atMost_toFloat hn) hone (by decide) (by decide)).mono (by decide)
  · rename_i hlarge
    show AtMost 12 (Float.Model.pack (UnpackedFloat.ofScientific Format.binary64 n (0 : Nat))).unpack
    rw [ofScientific_eq n 0 (by omega) (by omega), Nat.pow_zero, Nat.mul_one]
    have hlt : n <<< 53 < 2 ^ 117 := by
      rw [Nat.shiftLeft_eq]
      omega
    exact atMost_unpack_pack
      (atMost_roundWithAccuracy _ _ hlt (by omega) (by omega) (by omega) (by omega)) (by omega) (by omega)

/-- Powers of ten are infinite or have an exponent that is not below that of one half. -/
theorem atLeast_powerOfTen {n : Nat} (h : n ≤ greatestPower) : AtLeast (-53) (powerOfTen n).toModel.unpack := by
  by_cases hn : n ≤ 22
  · have hall : ∀ i : Fin 23, AtLeast (-53) (powerOfTen i).toModel.unpack := by decide +kernel
    exact hall ⟨n, by omega⟩
  · have hround := ofScientific_eq 1 n (by decide) (Nat.le_trans h (by decide))
    have hbits : 2 ^ 52 ≤ 1 <<< 53 * 10 ^ n := by
      have : 0 < 10 ^ n := Nat.pow_pos (by decide)
      omega
    obtain ⟨m, e, hm, hfinite, hlog, he⟩ :=
      roundWithAccuracy_eq_finite .positive .exact hbits (by decide : -1074 ≤ (-53 : Int))
    unfold powerOfTen Float.ofScientific
    rw [dif_neg (by omega)]
    show AtLeast (-53) (Float.Model.pack (UnpackedFloat.ofScientific Format.binary64 1 n)).unpack
    rw [hround, hfinite]
    exact atLeast_unpack_pack hlog he (by omega) (by decide)

theorem atLeast_greatestPower : AtLeast 1 (powerOfTen greatestPower).toModel.unpack := by
  decide +kernel

theorem atMost_scaleDown {x : Float} (n : Nat) (hx : AtMost 12 x.toModel.unpack) :
    AtMost 971 (scaleDown x n).toModel.unpack := by
  fun_induction scaleDown x n with
  | case1 x n hn => exact (atMost_div hx (atLeast_powerOfTen hn) (by decide) (by decide)).mono (by decide)
  | case2 x n hn hzero => exact hx.mono (by decide)
  -- the greatest power has an exponent of its own, so that a step does not add to the bound
  | case3 x n hn hzero ih =>
    have hstep := atMost_div (y := powerOfTen greatestPower) hx atLeast_greatestPower (by omega) (by omega)
    exact ih (hstep.mono (by omega))

theorem isFinite_of_scaleUp? {x y : Float} {n : Nat} (hx : AtMost 12 x.toModel.unpack) (h : scaleUp? x n = some y) :
    y.isFinite = true := by
  unfold scaleUp? at h
  simp only at h
  split at h
  · split at h
    · rename_i hfin
      cases h
      exact hfin
    · cases h
  · split at h
    · cases h
      exact (isFinite_iff x).2 (hx.mono (by decide))
    · cases h

theorem isFinite_neg {x : Float} (h : x.isFinite = true) : (-x).isFinite = true := by
  rw [isFinite_iff] at h ⊢
  refine atMost_unpack_pack (u := UnpackedFloat.neg x.toModel.unpack) ?_ (by decide) (by decide)
  generalize x.toModel.unpack = u at h
  cases h with
  | zero s => exact .zero _
  | finite h => exact .finite h

theorem absorb_lt {n : Nat} (ds : List Char) (h : n < UInt64.size) : (absorb n ds).1 < UInt64.size := by
  fun_induction absorb n ds with
  | case1 n => exact h
  | case2 n d ds next hlt ih => exact ih hlt
  | case3 n d ds next hlt => exact h

/-- What a numeral is read as is finite. -/
theorem isFinite_of_toFloat? {n : Numeral} {x : Float} (h : n.toFloat? = some x) : x.isFinite = true := by
  have hall : (absorb (absorb 0 n.whole).1 n.fraction).1 < 2 ^ 64 := absorb_lt _ (absorb_lt _ (by decide))
  have hnat := atMost_ofNat hall
  unfold Numeral.toFloat? at h
  simp only [Option.map_eq_some_iff] at h
  obtain ⟨y, hy, rfl⟩ := h
  have hfin : y.isFinite = true := by
    split at hy
    · exact isFinite_of_scaleUp? hnat hy
    · cases hy
      exact (isFinite_iff _).2 (atMost_scaleDown _ hnat)
  split
  · exact isFinite_neg hfin
  · exact hfin

end SceneScript.Decimal
