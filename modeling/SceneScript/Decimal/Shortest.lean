/-!
# The fewest digits that read back

A finite binary64 value is `m * 2 ^ q`.  The reals that round to it form an interval, from halfway to the
value below to halfway to the value above, with the ends exactly when `m` is even.  `shortest` takes the
decimal of fewest digits in that interval, of two such the one nearer to the value; an exact tie goes
by the rule it is given.  All comparisons are exact, in natural numbers.
-/

namespace SceneScript.Decimal

/-- The finite value `m * 2 ^ q`; below a power of two the gap is half as wide. -/
structure Binary where
  m : Nat
  q : Int
  narrowBelow : Bool

/-- The magnitude that the bits of a finite value stand for. -/
def Binary.ofBits (b : UInt64) : Binary :=
  let e := ((b >>> 52) &&& 0x7FF).toNat
  let f := (b &&& 0xFFFFFFFFFFFFF).toNat
  if e = 0 then ⟨f, -1074, false⟩ else ⟨0x10000000000000 + f, (e : Int) - 1075, f = 0 && 1 < e⟩

/-- The decimal `digits * 10 ^ exp`. -/
structure Scaled where
  digits : Nat
  exp : Int

/-- Which of two equally near decimals is taken. -/
inductive Tie where
  | toEven
  | up

/-- Compares `a * 10 ^ i` with `n * 2 ^ j`. -/
def compareScaled (a : Nat) (i : Int) (n : Nat) (j : Int) : Ordering :=
  compare (a * Nat.pow 10 i.toNat * Nat.pow 2 (-j).toNat)
    (n * Nat.pow 2 j.toNat * Nat.pow 10 (-i).toNat)

/-- Whether `d` lies among the reals that round to `x`. -/
def Binary.readsBack (x : Binary) (d : Scaled) : Bool :=
  let low := compareScaled d.digits d.exp (4 * x.m - if x.narrowBelow then 1 else 2) (x.q - 2)
  let high := compareScaled d.digits d.exp (4 * x.m + 2) (x.q - 2)
  let closed := x.m % 2 == 0
  (low == .gt || (closed && low == .eq)) && (high == .lt || (closed && high == .eq))

/-- A power of ten that makes every positive value at least one. -/
def lift : Nat := 340

/-- The least `k` with `x < 10 ^ k`, for a positive `x`. -/
def Binary.scale (x : Binary) : Int :=
  let lifted := x.m * Nat.pow 2 x.q.toNat * Nat.pow 10 lift / Nat.pow 2 (-x.q).toNat
  (Nat.toDigits 10 lifted).length - (lift : Int)

/-- The decimal with last place `10 ^ g` that reads back as `x` and is nearest to it, if there is one. -/
def Binary.onGrid (x : Binary) (tie : Tie) (g : Int) : Option Scaled :=
  let num := x.m * Nat.pow 2 x.q.toNat * Nat.pow 10 (-g).toNat
  let den := Nat.pow 2 (-x.q).toNat * Nat.pow 10 g.toNat
  let below := num / den
  let low : Scaled := ⟨below, g⟩
  let high : Scaled := ⟨below + 1, g⟩
  match x.readsBack low, x.readsBack high with
  | true, false => some low
  | false, true => some high
  | false, false => none
  | true, true =>
    match compare (2 * num) ((2 * below + 1) * den) with
    | .lt => some low
    | .gt => some high
    | .eq =>
      match tie with
      | .up => some high
      | .toEven => some (if below % 2 = 0 then low else high)

/-- The value itself as a decimal. -/
def Binary.exact (x : Binary) : Scaled :=
  if 0 ≤ x.q then ⟨x.m * Nat.pow 2 x.q.toNat, 0⟩ else ⟨x.m * Nat.pow 5 (-x.q).toNat, x.q⟩

/-- At most `fuel` trailing zeros of the digits moved into the exponent. -/
def Scaled.strip (d : Scaled) : Nat → Scaled
  | 0 => d
  | fuel + 1 =>
    if d.digits ≠ 0 ∧ d.digits % 10 = 0 then Scaled.strip ⟨d.digits / 10, d.exp + 1⟩ fuel else d

/-- The decimal of fewest digits that reads back as `x`, without trailing zeros. -/
def Binary.shortest (x : Binary) (tie : Tie) : Scaled :=
  if x.m = 0 then ⟨0, 0⟩
  else
    let k := x.scale
    let found := (List.range 17).findSome? fun n => x.onGrid tie (k - (n + 1 : Nat))
    let d := found.getD x.exact
    d.strip (Nat.toDigits 10 d.digits).length

end SceneScript.Decimal
