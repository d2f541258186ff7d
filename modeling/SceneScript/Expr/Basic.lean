import SceneScript.Value

/-!
# Expressions

The conditions, results and computations of a script.  Expressions are not evaluated here.
-/

namespace SceneScript

/-- The operators with two operands. -/
inductive BinaryOp where
  | add
  | sub
  | mul
  | div
  | rem
  | eq
  | ne
  | lt
  | le
  | gt
  | ge
  | and
  | or
deriving DecidableEq

/-- The operator as it is written in a script. -/
def BinaryOp.symbol : BinaryOp → String
  | add => "+"
  | sub => "-"
  | mul => "*"
  | div => "/"
  | rem => "%"
  | eq => "=="
  | ne => "!="
  | lt => "<"
  | le => "<="
  | gt => ">"
  | ge => ">="
  | and => "and"
  | or => "or"

/-- The name in saved programs. -/
def BinaryOp.name : BinaryOp → String
  | add => "Add"
  | sub => "Sub"
  | mul => "Mul"
  | div => "Div"
  | rem => "Rem"
  | eq => "Eq"
  | ne => "NotEq"
  | lt => "Lt"
  | le => "LtEq"
  | gt => "Gt"
  | ge => "GtEq"
  | and => "And"
  | or => "Or"

/-- An expression tree. -/
inductive Expr where
  | literal (v : Value)
  | var (name : String)
  /-- Has the value that is assigned. -/
  | assign (name : String) (value : Expr)
  | binary (op : BinaryOp) (left right : Expr)
  | not (e : Expr)
  | neg (e : Expr)
deriving BEq

/-- The text of an expression, with brackets around every operator that has two operands. -/
def Expr.shown : Expr → String
  | literal v => v.shown
  | var name => "@" ++ name
  | assign name value => "@" ++ name ++ " = " ++ value.shown
  | binary op left right => "(" ++ left.shown ++ " " ++ op.symbol ++ " " ++ right.shown ++ ")"
  | not e => "not " ++ e.shown
  | neg e => "-" ++ e.shown

end SceneScript
