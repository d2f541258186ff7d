/-!
# Integers in decimal digits

Writing gives no leading zeros and a minus sign for negative numbers.  Reading takes one optional sign
and at least one of the digits `0` to `9`, any number of leading zeros included.
-/

namespace SceneScript.Decimal

/-- The digits of `n`, without leading zeros. -/
def natText (n : Nat) : List Char := Nat.toDigits 10 n

/-- The digits of `n` after a minus sign if it is negative. -/
def intText (n : Int) : List Char :=
  if n < 0 then '-' :: natText n.natAbs else natText n.toNat

/-- The number that a run of digits stands for. -/
def ofDigits (ds : List Char) : Nat := Nat.ofDigitChars 10 ds 0

/-- Reads one or more digits. -/
def readNat? (cs : List Char) : Option Nat :=
  if cs.isEmpty || !cs.all Char.isDigit then none else some (ofDigits cs)

/-- Reads an optional sign and one or more digits. -/
def readInt? : List Char → Option Int
  | '+' :: cs => (readNat? cs).map Int.ofNat
  | '-' :: cs => (readNat? cs).map fun n => -Int.ofNat n
  | cs => (readNat? cs).map Int.ofNat

/-- `n` as a signed 64-bit integer, if it is one. -/
def toInt64? (n : Int) : Option Int64 :=
  if Int64.minValue.toInt ≤ n ∧ n ≤ Int64.maxValue.toInt then some (Int64.ofInt n) else none

/-- Reads a signed 64-bit integer. -/
def readInt64? (cs : List Char) : Option Int64 := (readInt? cs).bind toInt64?

end SceneScript.Decimal
