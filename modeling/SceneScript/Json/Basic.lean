import SceneScript.Decimal.Numeral

/-!
# JSON values

A value as it is written: numbers keep their digits, and objects their fields in order, repeated ones
included.  A quoted text with half of a surrogate pair in it stands for no text; it is kept as
`none`, so that a reader may still pass over it.
-/

namespace SceneScript

/-- A JSON value as it is written. -/
inductive Json where
  | null
  | bool (b : Bool)
  | number (n : Decimal.Numeral)
  | text (s : Option String)
  | array (items : List Json)
  | object (fields : List (Option String × Json))

namespace Json

instance : Inhabited Json := ⟨.null⟩

/-- A text. -/
def ofText (s : String) : Json := .text (some s)

/-- An integer. -/
def ofInt (n : Int) : Json :=
  .number ⟨decide (n < 0), Decimal.natText n.natAbs, [], none⟩

/-- An object with distinct keys. -/
def record (fields : List (String × Json)) : Json :=
  .object (fields.map fun p => (some p.1, p.2))

/-- Floats are written with a point, and with a power of ten if they are very large or very small. -/
def floatStyle : Decimal.FloatStyle where
  tie := .toEven
  positional := fun e => -5 ≤ e && e ≤ 15
  pointZero := true
  plusSign := true

/-- A float; one that is not finite has no number and becomes null. -/
def ofFloat (x : Float) : Json :=
  if x.isFinite then .number (Decimal.Numeral.ofFloat floatStyle x) else .null

end Json

end SceneScript
