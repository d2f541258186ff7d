import Mathlib.Algebra.Ring.Int.Defs
import Mathlib.Algebra.Ring.Nat
import SceneScript.Proofs.Expr.Lexeme

/-!
# Integers as they are written

An integer is written as digits, with or without a sign in front; zeros may lead.  These are exactly the texts that
are read, and the number is the one that the digits stand for by their places.  What is beyond 64 bits is refused
and never wrapped.

    readInt? cs = some k ↔ ∃ w : SignedDigits, w.text = cs ∧ w.value = k             (readInt?_eq_some_iff)
    readInt64? cs = some n ↔ IsInt64Text cs n.toInt                               (readInt64?_eq_some_iff)
    readInt64? cs = none ↔ ∀ k, ¬ IsInt64Text cs k                                (readInt64?_eq_none_iff)
-/

namespace SceneScript.Decimal

open SceneScript.Expr (IsDigits)

/-! ## Digits -/

/-- The number that digits stand for: the sum of all of them, each times the power of ten of its place. -/
def placeValue : List Char → Nat
  | [] => 0
  | c :: cs => (c.toNat - '0'.toNat) * 10 ^ cs.length + placeValue cs

/-- Taking the digits one after the other gives the sum over their places. -/
theorem ofDigits_eq_placeValue (ds : List Char) : ofDigits ds = placeValue ds := by
  induction ds with
  | nil => rfl
  | cons c cs ih =>
    calc ofDigits (c :: cs)
      _ = Nat.ofDigitChars 10 cs (c.toNat - '0'.toNat) := by
        rw [ofDigits, Nat.ofDigitChars_cons, Nat.mul_zero, Nat.zero_add]
      _ = 10 ^ cs.length * (c.toNat - '0'.toNat) + ofDigits cs := Nat.ofDigitChars_eq_ofDigitChars_zero
      _ = placeValue (c :: cs) := by rw [placeValue, ih, Nat.mul_comm]

theorem readNat?_eq_some_iff {cs : List Char} {k : Nat} :
    readNat? cs = some k ↔ IsDigits cs ∧ placeValue cs = k := by
  rw [readNat?, ← ofDigits_eq_placeValue]
  by_cases h : IsDigits cs
  · have hall : cs.all Char.isDigit = true := List.all_eq_true.2 h.2
    simp [h, h.1, hall]
  · have hcond : (cs.isEmpty || !cs.all Char.isDigit) = true := by
      by_cases hne : cs = []
      · simp [hne]
      · have hall : ¬cs.all Char.isDigit = true := fun hall => h ⟨hne, List.all_eq_true.1 hall⟩
        simp [hall]
    simp [h, hcond]

/-! ## Signs -/

/-- What may stand in front of the digits. -/
inductive SignMark where
  | none
  | plus
  | minus
deriving DecidableEq

def SignMark.text : SignMark → List Char
  | none => []
  | plus => ['+']
  | minus => ['-']

def SignMark.apply : SignMark → Nat → Int
  | none, k | plus, k => k
  | minus, k => -k

/-- An integer as it is written. -/
structure SignedDigits where
  sign : SignMark
  digits : List Char
  isDigits : IsDigits digits

namespace SignedDigits

def text (w : SignedDigits) : List Char := w.sign.text ++ w.digits

def value (w : SignedDigits) : Int := w.sign.apply (placeValue w.digits)

end SignedDigits

/-- Digits alone are read as the number that they stand for. -/
theorem readInt?_of_isDigits {cs : List Char} (h : IsDigits cs) : readInt? cs = some (placeValue cs : Int) := by
  have hread : readNat? cs = some (placeValue cs) := readNat?_eq_some_iff.2 ⟨h, rfl⟩
  unfold readInt?
  split
  · exact absurd (h.2 '+' List.mem_cons_self) (by decide)
  · exact absurd (h.2 '-' List.mem_cons_self) (by decide)
  · rw [hread]
    rfl

theorem readInt?_text (w : SignedDigits) : readInt? w.text = some w.value := by
  obtain ⟨sign, digits, hdigits⟩ := w
  have hread : readNat? digits = some (placeValue digits) := readNat?_eq_some_iff.2 ⟨hdigits, rfl⟩
  cases sign with
  | none => exact readInt?_of_isDigits hdigits
  | plus =>
    show (readNat? digits).map Int.ofNat = _
    rw [hread]
    rfl
  | minus =>
    show ((readNat? digits).map fun n => -Int.ofNat n) = _
    rw [hread]
    rfl

/-- An integer is read from exactly the texts that one may write. -/
theorem readInt?_eq_some_iff {cs : List Char} {k : Int} :
    readInt? cs = some k ↔ ∃ w : SignedDigits, w.text = cs ∧ w.value = k := by
  constructor
  · intro h
    unfold readInt? at h
    split at h
    all_goals
      obtain ⟨m, hm, rfl⟩ := Option.map_eq_some_iff.1 h
      obtain ⟨hdigits, rfl⟩ := readNat?_eq_some_iff.1 hm
    · exact ⟨⟨.plus, _, hdigits⟩, rfl, rfl⟩
    · exact ⟨⟨.minus, _, hdigits⟩, rfl, rfl⟩
    · exact ⟨⟨.none, _, hdigits⟩, rfl, rfl⟩
  · rintro ⟨w, rfl, rfl⟩
    exact readInt?_text w

/-! ## Sixty-four bits -/

/-- The text is the number `k`, which is one of 64 bits. -/
def IsInt64Text (cs : List Char) (k : Int) : Prop :=
  (∃ w : SignedDigits, w.text = cs ∧ w.value = k) ∧ -2 ^ 63 ≤ k ∧ k ≤ 2 ^ 63 - 1

theorem toInt64?_isSome_iff {k : Int} : (toInt64? k).isSome ↔ -2 ^ 63 ≤ k ∧ k ≤ 2 ^ 63 - 1 := by
  have hmin : Int64.minValue.toInt = -2 ^ 63 := rfl
  have hmax : Int64.maxValue.toInt = 2 ^ 63 - 1 := rfl
  rw [toInt64?, hmin, hmax]
  exact Option.isSome_ite

theorem readInt64?_eq_some_iff {cs : List Char} {n : Int64} :
    readInt64? cs = some n ↔ IsInt64Text cs n.toInt := by
  have hrange : -2 ^ 63 ≤ n.toInt ∧ n.toInt ≤ 2 ^ 63 - 1 := ⟨n.minValue_le_toInt, n.toInt_le⟩
  rw [readInt64?, Option.bind_eq_some_iff]
  constructor
  · rintro ⟨k, hk, hn⟩
    obtain rfl := toInt64?_eq_some_iff.1 hn
    exact ⟨readInt?_eq_some_iff.1 hk, hrange⟩
  · rintro ⟨hw, -⟩
    exact ⟨_, readInt?_eq_some_iff.2 hw, toInt64?_eq_some_iff.2 rfl⟩

/-- What is no integer of 64 bits is not read as one. -/
theorem readInt64?_eq_none_iff {cs : List Char} : readInt64? cs = none ↔ ∀ k, ¬IsInt64Text cs k := by
  constructor
  · rintro h k ⟨hw, hrange⟩
    obtain ⟨n, hn⟩ := Option.isSome_iff_exists.1 (toInt64?_isSome_iff.2 hrange)
    rw [readInt64?, readInt?_eq_some_iff.2 hw, Option.bind_some, hn] at h
    cases h
  · intro h
    cases hread : readInt64? cs with
    | none => rfl
    | some n => exact absurd (readInt64?_eq_some_iff.1 hread) (h _)

/-- Digits without a sign are refused exactly if their number is too large. -/
theorem readInt64?_digits_eq_none_iff {ds : List Char} (h : IsDigits ds) :
    readInt64? ds = none ↔ 2 ^ 63 - 1 < placeValue ds := by
  rw [readInt64?, readInt?_of_isDigits h, Option.bind_some, ← Option.not_isSome_iff_eq_none, toInt64?_isSome_iff]
  omega

end SceneScript.Decimal
