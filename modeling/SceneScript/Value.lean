import SceneScript.Decimal.Numeral
import SceneScript.Text.Quoted

/-!
# Values

What an action receives and what a literal of an expression stands for.
-/

namespace SceneScript

/-- A literal value. -/
inductive Value where
  | int (n : Int64)
  | float (x : Float)
  | text (s : String)
  | bool (b : Bool)
deriving BEq

namespace Value

/-- An argument without quotes is an integer if it can be read as one, a truth value if it is `true` or
`false`, and otherwise text. -/
def ofWord (s : String) : Value :=
  match Decimal.readInt64? s.toList with
  | some n => .int n
  | none => if s = "true" then .bool true else if s = "false" then .bool false else .text s

/-- Floats are shown without a power of ten, and without a point if they are integral. -/
def floatStyle : Decimal.FloatStyle where
  tie := .up
  positional := fun _ => true
  pointZero := false
  plusSign := false

/-- How a value is shown in an expression. -/
def shown : Value → String
  | int n => String.ofList (Decimal.intText n.toInt)
  | float x => String.ofList (Decimal.floatText floatStyle x)
  | text s => Text.quoted s
  | bool true => "true"
  | bool false => "false"

end Value

end SceneScript
