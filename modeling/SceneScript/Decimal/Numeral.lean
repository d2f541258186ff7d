import SceneScript.Decimal.Integer
import SceneScript.Decimal.Shortest

/-!
# Decimal numerals

A numeral is a decimal number as it is written: sign, digits before and after the point, and a power of
ten.  `Numeral.ofFloat` lays out a finite binary64 value by a style, with the fewest digits that read
back; `nearest` reads digits around a point as the closest value.
-/

namespace SceneScript.Decimal

/-- A decimal number as it is written; an empty fraction means that there is no point. -/
structure Numeral where
  negative : Bool
  whole : List Char
  fraction : List Char
  exponent : Option Int
deriving DecidableEq

/-- The decisions of a way to write floating-point values. -/
structure FloatStyle where
  /-- Which of two equally near decimals is taken. -/
  tie : Tie
  /-- The exponents of the leading digit that are written without a power of ten. -/
  positional : Int → Bool
  /-- Whether an integral value without a power of ten ends in `.0`. -/
  pointZero : Bool
  /-- Whether a power of ten that is not negative takes a plus sign. -/
  plusSign : Bool

/-- The text of a numeral. -/
def Numeral.text (n : Numeral) (plusSign : Bool) : List Char :=
  (if n.negative then ['-'] else []) ++ n.whole ++
    (if n.fraction.isEmpty then [] else '.' :: n.fraction) ++
    match n.exponent with
    | none => []
    | some e => 'e' :: (if plusSign && 0 ≤ e then ['+'] else []) ++ intText e

/-- The decimal `d` laid out by `style`. -/
def Scaled.layout (d : Scaled) (style : FloatStyle) (negative : Bool) : Numeral :=
  let ds := natText d.digits
  let lead := d.exp + ds.length - 1
  if !style.positional lead then ⟨negative, ds.take 1, ds.drop 1, some lead⟩
  else if 0 ≤ d.exp then
    ⟨negative, ds ++ List.replicate d.exp.toNat '0', if style.pointZero then ['0'] else [], none⟩
  else if 0 ≤ lead then ⟨negative, ds.take (lead + 1).toNat, ds.drop (lead + 1).toNat, none⟩
  else ⟨negative, ['0'], List.replicate (-lead - 1).toNat '0' ++ ds, none⟩

/-- Whether the sign bit is set. -/
def isNegative (x : Float) : Bool := x.toBits >>> 63 == 1

/-- The numeral of a finite value. -/
def Numeral.ofFloat (style : FloatStyle) (x : Float) : Numeral :=
  ((Binary.ofBits x.toBits).shortest style.tie).layout style (isNegative x)

/-- The text of any value; the values that are not finite have names of their own. -/
def floatText (style : FloatStyle) (x : Float) : List Char :=
  if x.isNaN then "NaN".toList
  else if x.isInf then (if isNegative x then "-inf" else "inf").toList
  else (Numeral.ofFloat style x).text style.plusSign

/-- The value nearest to the digits `whole` before the point and `fraction` after it. -/
def nearest (whole fraction : List Char) : Float :=
  Float.ofScientific (ofDigits (whole ++ fraction)) true fraction.length

end SceneScript.Decimal
