import SceneScript.Expr.Parser
import SceneScript.Instruction.Inspect
import SceneScript.Statement

/-!
# Nodes

Between statements and instructions stand nodes.  Each statement gives one node.  A node knows its index
among the nodes of its block that become instructions, and the nodes of a branch know the positions of
their partners in the block's list of nodes.
-/

namespace SceneScript

/-- What a node becomes. -/
inductive NodeKind where
  /-- An instruction that needs no position. -/
  | plain (i : Instruction)
  /-- A condition; `elseAt` and `endAt` are the positions of its partners. -/
  | branch (test : Expr) (elseAt endAt : Option Nat)
  /-- The jump over the second part of a branch, to its end. -/
  | otherwise (endAt : Option Nat)
  /-- Marks the end of a branch and becomes no instruction. -/
  | endIf
  /-- Enters a block. -/
  | entry (block : String)
  /-- Jumps over a block. -/
  | skip (block : String)
deriving BEq

/-- A node of a block. -/
structure Node where
  index : Nat
  kind : NodeKind
deriving BEq

/-- Whether the node only marks a place. -/
def Node.isMarker (n : Node) : Bool :=
  match n.kind with
  | .endIf => true
  | _ => false

/-- How a node is shown. -/
def Node.shown (n : Node) : String :=
  let index := n.index
  let what :=
    match n.kind with
    | .plain i => Inspect.instruction i
    | .branch test _ _ => ":if " ++ test.shown
    | .otherwise _ => ":else"
    | .endIf => ":end"
    | .entry block => ":entry " ++ block
    | .skip block => block ++ ":"
  s!"[{index}]{what}"

namespace Statement

/-- The first argument; a statement without one is at fault. -/
def argument (s : Statement) : Except Fault String :=
  match s.args with
  | a :: _ => .ok a
  | [] => .error (.wrongArgumentCount s.keyword.name 1 0 s.line)

/-- A name without blanks around it and without a reference symbol in front. -/
def bareName (sym : Symbols) (text : String) : String :=
  match Text.trim text.toList with
  | [] => ""
  | c :: cs => String.ofList (if c = sym.reference then cs else c :: cs)

/-- The node that a statement gives. -/
def node (sym : Symbols) (s : Statement) : Except Fault NodeKind :=
  match s.keyword with
  | .otherwise => .ok (.otherwise none)
  | .endIf => .ok .endIf
  | .ret => .ok (.plain .ret)
  | .stop => .ok (.plain .stop)
  | .unbind => .ok (.plain (.unbind (s.args.head?.map (bareName sym))))
  | .yield =>
    match s.args with
    | [] => .ok (.plain (.yield none))
    | text :: _ => (Expr.parse sym text).map fun e => .plain (.yield (some e))
  | .ifThen =>
    match s.argument with
    | .error fault => .error fault
    | .ok text => (Expr.parse sym text).map fun e => .branch e none none
  | .action =>
    match s.argument with
    | .error fault => .error fault
    | .ok text => (Call.parse sym text).map fun c => .plain (.action c.name c.args)
  | .entry =>
    match s.argument with
    | .error fault => .error fault
    | .ok text => .ok (.entry (trimmed text))
  | .bind =>
    match s.argument with
    | .error fault => .error fault
    | .ok text => .ok (.plain (.bind (bareName sym text)))
  | .compute =>
    match s.argument with
    | .error fault => .error fault
    | .ok text => (Expr.parse sym text).map fun e => .plain (.compute e)

end Statement

end SceneScript
