import SceneScript.Expr.Basic

/-!
# Instructions

A compiled script is a flat list of instructions.  Every destination is a position in the whole list.
-/

namespace SceneScript

/-- One step of a compiled script. -/
inductive Instruction where
  | action (name : String) (args : List Value)
  /-- Goes on at `ifTrue` or at `ifFalse`. -/
  | condition (test : Expr) (ifTrue ifFalse : Nat)
  | jump (destination : Nat)
  /-- Enters the block whose first instruction is at `head`. -/
  | blockEntry (head : Nat)
  | blockEnd
  | bind (name : String)
  | unbind (name : Option String)
  | ret
  | stop
  | yield (value : Option Expr)
  | compute (e : Expr)
deriving BEq

/-- The positions that an instruction refers to. -/
def Instruction.destinations : Instruction → List Nat
  | condition _ ifTrue ifFalse => [ifTrue, ifFalse]
  | jump destination => [destination]
  | blockEntry head => [head]
  | _ => []

end SceneScript
