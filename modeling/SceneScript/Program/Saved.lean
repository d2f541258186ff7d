import SceneScript.Json.Decode
import SceneScript.Json.Reader
import SceneScript.Json.Writer
import SceneScript.Program.Basic

/-!
# Saved programs

A program is saved as JSON, with one item a line, and loaded again.  The loader takes records also as
arrays, in any order of their fields, and does without the file name and the inputs.
-/

namespace SceneScript

open Json (Decoder)

/-! ## Writing -/

/-- A choice with something beside its name. -/
def tagged (name : String) (j : Json) : Json := .record [(name, j)]

/-- Null, or what `f` writes. -/
def orNull {α : Type} (f : α → Json) : Option α → Json
  | none => .null
  | some a => f a

def Value.toJson : Value → Json
  | int n => tagged "Int" (.ofInt n.toInt)
  | float x => tagged "Float" (.ofFloat x)
  | text s => tagged "String" (.ofText s)
  | bool b => tagged "Bool" (.bool b)

def Expr.toJson : Expr → Json
  | literal v => tagged "Literal" v.toJson
  | var name => tagged "Variable" (.ofText name)
  | assign name value =>
    tagged "Assign" (.record [("name", .ofText name), ("value", value.toJson)])
  | binary op left right =>
    tagged "Binary"
      (.record [("op", .ofText op.name), ("left", left.toJson), ("right", right.toJson)])
  | not e => tagged "Not" e.toJson
  | neg e => tagged "Neg" e.toJson

def Instruction.toJson : Instruction → Json
  | action name args =>
    tagged "Action" (.record [("name", .ofText name), ("args", .array (args.map Value.toJson))])
  | condition test ifTrue ifFalse =>
    tagged "Condition"
      (.record [("condition", test.toJson), ("true_destination", .ofInt ifTrue),
        ("false_destination", .ofInt ifFalse)])
  | jump destination => tagged "Jump" (.record [("destination", .ofInt destination)])
  | blockEntry head => tagged "BlockEntry" (.record [("block_head", .ofInt head)])
  | blockEnd => .ofText "BlockEnd"
  | bind name => tagged "Bind" (.record [("bound_name", .ofText name)])
  | unbind name => tagged "Unbind" (.record [("bound_name", orNull .ofText name)])
  | ret => .ofText "Return"
  | stop => .ofText "Stop"
  | yield e => tagged "Yield" (.record [("expr", orNull Expr.toJson e)])
  | compute e => tagged "Compute" (.record [("expr", e.toJson)])

def Program.toJson (p : Program) : Json :=
  .record
    [("nodes", .array (p.code.map Instruction.toJson)), ("file", .ofText p.file),
      ("inputs", .array (p.inputs.toList.map .ofText))]

/-- The text of a saved program. -/
def Program.save (p : Program) : String := p.toJson.pretty

/-! ## Reading -/

def Value.decode : Decoder Value := fun depth j =>
  match Json.choice? depth j with
  | none => none
  | some c =>
    if c.name = "Int" then (c.payload? Json.Decode.int64).map .int
    else if c.name = "Float" then (c.payload? Json.Decode.float).map .float
    else if c.name = "String" then (c.payload? Json.Decode.text).map .text
    else if c.name = "Bool" then (c.payload? Json.Decode.bool).map .bool
    else none

/-- The operators that a name in a saved program may stand for. -/
def BinaryOp.all : List BinaryOp :=
  [.add, .sub, .mul, .div, .rem, .eq, .ne, .lt, .le, .gt, .ge, .and, .or]

def BinaryOp.decode : Decoder BinaryOp := fun depth j =>
  match Json.choice? depth j with
  | none => none
  | some c => if c.isBare then BinaryOp.all.find? fun op => op.name = c.name else none

/-- An expression always opens a level, which bounds the calls. -/
def Expr.decode : Decoder Expr
  | 0, _ => none
  | depth + 1, j =>
    match Json.choice? (depth + 1) j with
    | none => none
    | some ⟨_, none⟩ => none
    | some ⟨name, some (_, j)⟩ =>
      if name = "Literal" then (Value.decode depth j).map .literal
      else if name = "Variable" then (Json.Decode.text depth j).map .var
      else if name = "Not" then (Expr.decode depth j).map .not
      else if name = "Neg" then (Expr.decode depth j).map .neg
      else
        match depth with
        | 0 => none
        | inner + 1 =>
          if name = "Assign" then
            match Json.fields? ["name", "value"] (inner + 1) j with
            | none => none
            | some r =>
              match r.required 0 Json.Decode.text, (r.get? 1).bind (Expr.decode inner) with
              | some name, some value => some (.assign name value)
              | _, _ => none
          else if name = "Binary" then
            match Json.fields? ["op", "left", "right"] (inner + 1) j with
            | none => none
            | some r =>
              match r.required 0 BinaryOp.decode, (r.get? 1).bind (Expr.decode inner),
                (r.get? 2).bind (Expr.decode inner) with
              | some op, some left, some right => some (.binary op left right)
              | _, _, _ => none
          else none

/-- Reads the fields of an instruction that has any. -/
def Instruction.decodeWith (name : String) : Decoder Instruction := fun depth j =>
  if name = "Action" then
    (Json.fields? ["name", "args"] depth j).bind fun r =>
      match r.required 0 Json.Decode.text, r.required 1 (Json.Decode.list Value.decode) with
      | some name, some args => some (.action name args)
      | _, _ => none
  else if name = "Condition" then
    (Json.fields? ["condition", "true_destination", "false_destination"] depth j).bind fun r =>
      match r.required 0 Expr.decode, r.required 1 Json.Decode.nat64,
        r.required 2 Json.Decode.nat64 with
      | some test, some ifTrue, some ifFalse => some (.condition test ifTrue ifFalse)
      | _, _, _ => none
  else if name = "Jump" then
    (Json.fields? ["destination"] depth j).bind fun r =>
      (r.required 0 Json.Decode.nat64).map .jump
  else if name = "BlockEntry" then
    (Json.fields? ["block_head"] depth j).bind fun r =>
      (r.required 0 Json.Decode.nat64).map .blockEntry
  else if name = "Bind" then
    (Json.fields? ["bound_name"] depth j).bind fun r => (r.required 0 Json.Decode.text).map .bind
  else if name = "Unbind" then
    (Json.fields? ["bound_name"] depth j).bind fun r => (r.optional 0 Json.Decode.text).map .unbind
  else if name = "Yield" then
    (Json.fields? ["expr"] depth j).bind fun r => (r.optional 0 Expr.decode).map .yield
  else if name = "Compute" then
    (Json.fields? ["expr"] depth j).bind fun r => (r.required 0 Expr.decode).map .compute
  else none

def Instruction.decode : Decoder Instruction := fun depth j =>
  match Json.choice? depth j with
  | none => none
  | some c =>
    if c.name = "BlockEnd" then (if c.isBare then some .blockEnd else none)
    else if c.name = "Return" then (if c.isBare then some .ret else none)
    else if c.name = "Stop" then (if c.isBare then some .stop else none)
    else c.payload? (Instruction.decodeWith c.name)

def Program.decode : Decoder Program := fun depth j =>
  (Json.fields? ["nodes", "file", "inputs"] depth j).bind fun r =>
    match r.required 0 (Json.Decode.list Instruction.decode), r.withDefault 1 "" Json.Decode.text,
      r.withDefault 2 [] (Json.Decode.list Json.Decode.text) with
    | some code, some file, some inputs => some ⟨code, file, .ofList inputs⟩
    | _, _, _ => none

/-- The program that a text holds. -/
def Program.load? (text : String) : Option Program :=
  (Json.parse? text).bind (Program.decode Json.deepest)

/-- The instruction that a text holds. -/
def Instruction.load? (text : String) : Option Instruction :=
  (Json.parse? text).bind (Instruction.decode Json.deepest)

/-- The expression that a text holds. -/
def Expr.load? (text : String) : Option Expr :=
  (Json.parse? text).bind (Expr.decode Json.deepest)

end SceneScript
