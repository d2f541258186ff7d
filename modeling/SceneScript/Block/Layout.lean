import SceneScript.Block.Link

/-!
# The layout of blocks

A block becomes the node that enters it, the nodes of its statements and the node that ends it.  Blocks are
placed one after another; the table keeps, for each name, where the block starts and how many nodes
it has, markers included.
-/

namespace SceneScript

/-- Where a block starts, and how many nodes it has. -/
structure BlockInfo where
  offset : Nat
  length : Nat
deriving DecidableEq

/-- What is known of the blocks by name. -/
structure BlockTable where
  entries : List (String × BlockInfo)

namespace BlockTable

def empty : BlockTable := ⟨[]⟩

def find? (t : BlockTable) (name : String) : Option BlockInfo :=
  (t.entries.find? fun p => p.1 = name).map Prod.snd

/-- The entry of `name`, which must exist. -/
def get (t : BlockTable) (name : String) : Except Fault BlockInfo :=
  match t.find? name with
  | some info => .ok info
  | none => .error (.noSuchBlock name)

/-- The table with a new entry, which hides an old one of the same name. -/
def insert (t : BlockTable) (name : String) (info : BlockInfo) : BlockTable :=
  ⟨(name, info) :: t.entries⟩

end BlockTable

/-- A block with its place. -/
structure PlacedBlock where
  name : String
  offset : Nat
  nodes : List Node

/-- How many instructions the block becomes. -/
def PlacedBlock.size (b : PlacedBlock) : Nat := (b.nodes.filter (!·.isMarker)).length

namespace Block

/-- The nodes of a block, numbered and linked. -/
def nodes (sym : Symbols) (b : Block) : Except Fault (List Node) :=
  match collect (Statement.node sym) b.statements with
  | .error fault => .error fault
  | .ok kinds =>
    let all := .entry b.name :: kinds ++ [.plain .blockEnd]
    link b.name (number 0 (all.map (Node.mk 0)))

/-- Places the blocks from `offset` on and enters them in the table. -/
def placeFrom (sym : Symbols) :
    BlockTable → Nat → List Block → Except Fault (List PlacedBlock × BlockTable)
  | table, _, [] => .ok ([], table)
  | table, offset, b :: bs =>
    match b.nodes sym with
    | .error fault => .error fault
    | .ok nodes =>
      if (table.find? b.name).isSome then .error (.duplicateBlock b.name)
      else
        let placed : PlacedBlock := ⟨b.name, offset, nodes⟩
        match placeFrom sym (table.insert b.name ⟨offset, nodes.length⟩) (offset + placed.size) bs with
        | .error fault => .error fault
        | .ok (rest, table) => .ok (placed :: rest, table)

/-- Places the blocks one after another, on top of what the table already knows. -/
def place (sym : Symbols) (table : BlockTable) (blocks : List Block) :
    Except Fault (List PlacedBlock × BlockTable) :=
  placeFrom sym table 0 blocks

end Block

end SceneScript
