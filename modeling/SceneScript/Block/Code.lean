import SceneScript.Block.Layout

/-!
# The code of blocks

`Node.lower` makes an instruction of a node of a placed block: indices in the block become positions in the
whole list.  `emit` does so for all nodes but the markers and checks that no destination lies beyond the
end of the list.

The nodes of a script are counted without end.  Nodes that were numbered elsewhere carry 64-bit words, and
sums of those start again from zero.
-/

namespace SceneScript

/-- How positions are counted. -/
inductive Counting where
  /-- On and on. -/
  | endless
  /-- In 64-bit words, which start again from zero. -/
  | words
deriving DecidableEq

/-- The position `n` as it is counted. -/
def Counting.place : Counting → Nat → Nat
  | endless, n => n
  | words, n => n % UInt64.size

/-- The index of the node to which a link of a branch leads; a link that leads out of the block is a
fault of the branch. -/
def linkedIndex (siblings : List Node) (fault : Fault) (position : Nat) : Except Fault Nat :=
  match siblings[position]? with
  | some n => .ok n.index
  | none => .error fault

/-- The index, in its block, of the instruction at which a branch goes on when its test fails: the one
after its second part's jump, or else the one after its end. -/
def failIndex (siblings : List Node) (fault : Fault) (elseAt : Option Nat) (endAt : Nat) :
    Except Fault Nat :=
  match elseAt with
  | some position => (linkedIndex siblings fault position).map (· + 1)
  | none => linkedIndex siblings fault endAt

/-- The instruction of a node in the block of that name, which starts at `offset`. -/
def Node.lower (counting : Counting) (siblings : List Node) (offset : Nat) (block : String)
    (table : BlockTable) (n : Node) : Except Fault Instruction :=
  let unlinked := Fault.unlinkedBranch block n.index
  match n.kind with
  | .plain i => .ok i
  | .branch _ _ none | .otherwise none => .error unlinked
  | .branch test elseAt (some endAt) =>
    (failIndex siblings unlinked elseAt endAt).map fun index =>
      .condition test (counting.place (offset + n.index + 1)) (counting.place (offset + index))
  | .otherwise (some endAt) =>
    (linkedIndex siblings unlinked endAt).map fun index => .jump (counting.place (offset + index))
  | .endIf => .error (.markerEmitted block n.index)
  | .entry name => (table.get name).map fun info => .blockEntry info.offset
  | .skip name => (table.get name).map fun info => .jump (counting.place (info.offset + info.length))

namespace PlacedBlock

/-- The instruction of a node, if its destinations do not lie beyond `total`. -/
def lowerWithin (counting : Counting) (total : Nat) (table : BlockTable) (b : PlacedBlock)
    (n : Node) : Except Fault Instruction :=
  match n.lower counting b.nodes b.offset b.name table with
  | .error fault => .error fault
  | .ok i =>
    match i.destinations.find? fun d => total < d with
    | some d => .error (.destinationOutOfRange b.name n.index d total)
    | none => .ok i

/-- The instructions of a block in a list of `total` instructions. -/
def code (counting : Counting) (total : Nat) (table : BlockTable) (b : PlacedBlock) :
    Except Fault (List Instruction) :=
  collect (lowerWithin counting total table b) (b.nodes.filter (!·.isMarker))

/-- How many instructions the blocks become. -/
def totalSize : List PlacedBlock → Nat
  | [] => 0
  | b :: bs => b.size + totalSize bs

/-- The instructions of all blocks. -/
def emit (counting : Counting) (table : BlockTable) (blocks : List PlacedBlock) :
    Except Fault (List Instruction) :=
  (collect (code counting (totalSize blocks) table) blocks).map List.flatten

end PlacedBlock

end SceneScript
