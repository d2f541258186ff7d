import SceneScript.Instruction.Basic

/-!
# Instructions as shown to a person

The text names every part of an instruction, down to the values.
-/

namespace SceneScript.Inspect

/-- A constructor with named parts. -/
def braced (head : String) (parts : List (String × String)) : String :=
  head ++ " \x7b " ++ ", ".intercalate (parts.map fun p => p.1 ++ ": " ++ p.2) ++ " \x7d"

/-- A constructor with one part. -/
def wrapped (head part : String) : String := head ++ "(" ++ part ++ ")"

def optional : Option String → String
  | none => "None"
  | some part => wrapped "Some" part

/-- Floats are written with a point, and with a power of ten if they are very large or very small. -/
def floatStyle : Decimal.FloatStyle where
  tie := .up
  positional := fun e => -4 ≤ e && e ≤ 15
  pointZero := true
  plusSign := false

def value : Value → String
  | .int n => wrapped "Int" (String.ofList (Decimal.intText n.toInt))
  | .float x => wrapped "Float" (String.ofList (Decimal.floatText floatStyle x))
  | .text s => wrapped "String" (Text.quoted s)
  | .bool b => wrapped "Bool" (if b then "true" else "false")

def expr : Expr → String
  | .literal v => wrapped "Literal" (value v)
  | .var name => wrapped "Variable" (Text.quoted name)
  | .assign name e => braced "Assign" [("name", Text.quoted name), ("value", expr e)]
  | .binary op left right =>
    braced "Binary" [("op", op.name), ("left", expr left), ("right", expr right)]
  | .not e => wrapped "Not" (expr e)
  | .neg e => wrapped "Neg" (expr e)

def instruction : Instruction → String
  | .action name args =>
    braced "Action"
      [("name", Text.quoted name), ("args", "[" ++ ", ".intercalate (args.map value) ++ "]")]
  | .condition test ifTrue ifFalse =>
    braced "Condition"
      [("condition", expr test), ("true_destination", toString ifTrue),
        ("false_destination", toString ifFalse)]
  | .jump destination => braced "Jump" [("destination", toString destination)]
  | .blockEntry head => braced "BlockEntry" [("block_head", toString head)]
  | .blockEnd => "BlockEnd"
  | .bind name => braced "Bind" [("bound_name", Text.quoted name)]
  | .unbind name => braced "Unbind" [("bound_name", optional (name.map Text.quoted))]
  | .ret => "Return"
  | .stop => "Stop"
  | .yield e => braced "Yield" [("expr", optional (e.map expr))]
  | .compute e => braced "Compute" [("expr", expr e)]

end SceneScript.Inspect
