import SceneScript.Proofs.Decimal.Integer
import SceneScript.Proofs.Expr.FullWidth

/-!
# Integers as words and in expressions

An argument without quotes and a literal of an expression are read in two ways, which agree on every run of digits:
both give its number, or it is more than 64 bits can hold; then the argument is left as text, while the expression is
refused.  A sign belongs to an argument only, since a minus in an expression is an operator.

    Value.ofWord s = .int n ↔ Decimal.IsInt64Text s.toList n.toInt                         (ofWord_eq_int_iff)
    sym.SparesDigits → IsDigits ds → tier.cost ≤ fuel → readTier sym fuel tier ds = readNumber ds
                                                                                           (readTier_digits)
-/

namespace SceneScript

/-! ## Words -/

namespace Value

theorem ofWord_eq_int_iff {s : String} {n : Int64} :
    ofWord s = .int n ↔ Decimal.IsInt64Text s.toList n.toInt := by
  rw [← Decimal.readInt64?_eq_some_iff, ofWord]
  cases Decimal.readInt64? s.toList with
  | some m => simp
  | none =>
    by_cases htrue : s = "true"
    · simp [htrue]
    · by_cases hfalse : s = "false" <;> simp [htrue, hfalse]

/-- All words but integers and the two truth values are text, as they are. -/
theorem ofWord_eq_text_iff {s t : String} :
    ofWord s = .text t ↔
      t = s ∧ s ≠ "true" ∧ s ≠ "false" ∧ ∀ k, ¬Decimal.IsInt64Text s.toList k := by
  rw [← Decimal.readInt64?_eq_none_iff, ofWord]
  cases Decimal.readInt64? s.toList with
  | some m => simp
  | none =>
    by_cases htrue : s = "true"
    · simp [htrue]
    · by_cases hfalse : s = "false"
      · simp [hfalse]
      · simp [htrue, hfalse, eq_comm]

end Value

/-! ## Runs of digits in expressions -/

namespace Expr

variable {sym : Symbols} {ds : List Char}

theorem readNumber_digits (h : IsDigits ds) :
    readNumber ds =
      (Decimal.readInt64? ds).elim (.error (.badNumber (String.ofList ds))) fun n => .ok (.literal (.int n), []) := by
  have hnil : startsWith Char.isDigit [] = false := rfl
  have htake := takeWhile_run h.2 hnil
  have hdrop := dropWhile_run h.2 hnil
  rw [List.append_nil] at htake hdrop
  rw [Decimal.readInt64?, Decimal.readInt?_of_isDigits h, ← Decimal.ofDigits_eq_placeValue, Option.bind_some]
  simp only [readNumber, htake, hdrop]
  cases Decimal.toInt64? (Decimal.ofDigits ds) <;> rfl

/-- A reader that goes on behind the digits finds nothing. -/
theorem readNumber_digits_bind (h : IsDigits ds) {f : Expr × List Char → Parsed}
    (hf : ∀ e, f (e, []) = .ok (e, [])) : (readNumber ds).bind f = readNumber ds := by
  rw [readNumber_digits h]
  cases Decimal.readInt64? ds with
  | none => rfl
  | some n => exact hf _

theorem Tier.leading?_digit (tier : Tier) {c : Char} (h : c.isDigit = true) (cs : List Char) :
    tier.leading? (c :: cs) = none := by
  have henglish : Symbols.english.InUse := .inl rfl
  exact Tier.leading?_eq_none henglish (.inl (.inr h)) cs

/-- Every tier hands a run of digits down to the reader of numbers and takes its answer, which may be a fault. -/
theorem readTier_digits (hsym : sym.SparesDigits) (h : IsDigits ds) {fuel : Nat} {tier : Tier}
    (hfuel : tier.cost ≤ fuel) : readTier sym fuel tier ds = readNumber ds := by
  obtain ⟨c, cs, rfl⟩ := List.exists_cons_of_ne_nil h.1
  have hc : c.isDigit = true := h.2 c List.mem_cons_self
  have htrim : Text.trimStart (c :: cs) = c :: cs := Text.trimStart_cons (isBlank_eq_false_of_isDigit hc) cs
  -- on the budget: each tier goes to the next stronger one, and the primary one to the number
  induction fuel generalizing tier with
  | zero => cases tier <;> simp [Tier.cost] at hfuel
  | succ fuel ih =>
    rcases tier.shape with ht | ht | rfl | rfl
    · have hcost := Tier.cost_next ht.ne_primary
      -- the chain behind the number needs budget of its own
      obtain ⟨fuel, rfl⟩ : ∃ m, fuel = m + 1 := by
        have : 1 ≤ tier.next.cost := by cases tier <;> decide
        exact ⟨fuel - 1, by omega⟩
      rw [readTier_chain_eq ht, ih (by omega)]
      refine readNumber_digits_bind h fun e => ?_
      rw [readChain_eq, Tier.operator?_nil]
      rfl
    · have hcost := Tier.cost_next (Tier.ne_primary_of_lead ht)
      rw [readTier_lead_eq ht, htrim, Tier.leading?_digit tier hc]
      exact ih (by omega)
    · have hcost : Tier.sum.cost + 1 = Tier.comparison.cost := rfl
      rw [readTier_comparison_eq, ih (by omega)]
      refine readNumber_digits_bind h fun e => ?_
      rw [Tier.operator?_nil]
      rfl
    · rw [readTier_atom_eq htrim (closing?_digit hsym hc), readAtom_digit hsym hc]

theorem readTop_digits (hsym : sym.SparesDigits) (h : IsDigits ds) : readTop sym ds = readNumber ds := by
  obtain ⟨c, cs, rfl⟩ := List.exists_cons_of_ne_nil h.1
  have hc : c ≠ sym.reference := isDigit_ne (h.2 c List.mem_cons_self) (hsym _ (by simp))
  have hfuel : Tier.disjunction.cost ≤ budget (c :: cs) := by
    show 8 ≤ 10 * _
    omega
  rw [readTop, if_neg hc, readOperand, readTier_digits hsym h hfuel]

/-- A run of digits is read as its number, or refused for what it is. -/
theorem parse_digits (hsym : sym.SparesDigits) {s : String} (h : IsDigits s.toList) :
    parse sym s =
      (Decimal.readInt64? s.toList).elim (.error (.invalidExpr s (.badNumber s))) fun n => .ok (.literal (.int n)) := by
  have hsolid : Text.Solid s.toList := Text.solid_of_forall fun c hc => isBlank_eq_false_of_isDigit (h.2 c hc)
  rw [parse_eq, hsolid.trim_eq, readAll_eq sym h.1, readTop_digits hsym h, readNumber_digits h, String.ofList_toList]
  cases Decimal.readInt64? s.toList <;> rfl

/-- **Integers are read exactly, up to the limits of 64 bits.**  A word is an integer exactly if it is one sign or
none and digits after it, whose number is in the range; all other words but the truth values stay the text they are.
With symbols that spare the digits, as both sets in use do, a run of digits is the same integer in an expression, and
is refused exactly if its number is beyond the range. -/
theorem ofWord_and_parse_integer (s : String) :
    (∀ n : Int64, Value.ofWord s = .int n ↔ Decimal.IsInt64Text s.toList n.toInt) ∧
    (∀ t, Value.ofWord s = .text t ↔
      t = s ∧ s ≠ "true" ∧ s ≠ "false" ∧ ∀ k, ¬Decimal.IsInt64Text s.toList k) ∧
    ∀ sym : Symbols, sym.SparesDigits → IsDigits s.toList →
      (∀ n : Int64, parse sym s = .ok (.literal (.int n)) ↔ Value.ofWord s = .int n) ∧
      (parse sym s = .error (.invalidExpr s (.badNumber s)) ↔ 2 ^ 63 - 1 < Decimal.placeValue s.toList) := by
  refine ⟨fun n => Value.ofWord_eq_int_iff, fun t => Value.ofWord_eq_text_iff, fun sym hsym hdigits => ?_⟩
  rw [parse_digits hsym hdigits, ← Decimal.readInt64?_digits_eq_none_iff hdigits]
  simp only [Value.ofWord_eq_int_iff, ← Decimal.readInt64?_eq_some_iff]
  cases Decimal.readInt64? s.toList <;> simp

theorem ofWord_and_parse_limits :
    (Symbols.english.SparesDigits ∧ Symbols.chinese.SparesDigits) ∧
    (IsDigits "009223372036854775807".toList ∧ IsDigits "9223372036854775808".toList) ∧
    Value.ofWord "-009223372036854775808" = .int Int64.minValue ∧
    Value.ofWord "+9223372036854775808" = .text "+9223372036854775808" ∧
    parse .chinese "009223372036854775807" = .ok (.literal (.int Int64.maxValue)) ∧
    parse .english "9223372036854775808" =
      .error (.invalidExpr "9223372036854775808" (.badNumber "9223372036854775808")) := by
  have henglish : Symbols.english.SparesDigits := by decide
  have hchinese : Symbols.chinese.SparesDigits := by decide
  have hlast : IsDigits "009223372036854775807".toList := ⟨by decide, by decide⟩
  have hbeyond : IsDigits "9223372036854775808".toList := ⟨by decide, by decide⟩
  have hleast : Decimal.IsInt64Text "-009223372036854775808".toList Int64.minValue.toInt :=
    ⟨⟨⟨.minus, "009223372036854775808".toList, by decide, by decide⟩, by decide, by decide⟩, by decide, by decide⟩
  have hword : Value.ofWord "009223372036854775807" = .int Int64.maxValue :=
    ((ofWord_and_parse_integer _).1 _).2
      ⟨⟨⟨.none, "009223372036854775807".toList, hlast⟩, rfl, rfl⟩, by decide, by decide⟩
  have hnone : ∀ k, ¬Decimal.IsInt64Text "+9223372036854775808".toList k :=
    Decimal.readInt64?_eq_none_iff.1 (by decide)
  refine ⟨⟨henglish, hchinese⟩, ⟨hlast, hbeyond⟩, ((ofWord_and_parse_integer _).1 _).2 hleast,
    ((ofWord_and_parse_integer _).2.1 _).2 ⟨rfl, by decide, by decide, hnone⟩,
    (((ofWord_and_parse_integer _).2.2 _ hchinese hlast).1 _).2 hword,
    ((ofWord_and_parse_integer _).2.2 _ henglish hbeyond).2.2 (by decide)⟩

end Expr

end SceneScript
