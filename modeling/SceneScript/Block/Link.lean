import SceneScript.Node

/-!
# Indices and links

`number` gives every node its index: the count of nodes before it that become instructions.  `link` tells
the nodes of each branch where their partners stand, if the branches are well nested.
-/

namespace SceneScript.Block

/-- The nodes with their indices, the first one having the index `start`. -/
def number : Nat → List Node → List Node
  | _, [] => []
  | start, n :: ns =>
    ⟨start, n.kind⟩ :: number (if n.isMarker then start else start + 1) ns

/-- Links the nodes from `position` on, inside open branches.  For each of these, innermost first, `opened`
holds the position of its second part, if that has begun; the second result gives the positions of its
second part and of its end. -/
def linkFrom (block : String) :
    List (Option Nat) → Nat → List Node → Except Fault (List Node × List (Option Nat × Nat))
  | [], _, [] => .ok ([], [])
  | opened, _, [] => .error (.unclosedIf block opened.length)
  | opened, position, ⟨index, .branch test _ _⟩ :: ns =>
    match linkFrom block (none :: opened) (position + 1) ns with
    | .error fault => .error fault
    | .ok (ns, []) => .ok (⟨index, .branch test none none⟩ :: ns, [])
    | .ok (ns, (elseAt, endAt) :: closed) =>
      .ok (⟨index, .branch test elseAt (some endAt)⟩ :: ns, closed)
  | opened, position, ⟨index, .otherwise _⟩ :: ns =>
    match opened with
    | [] => .error (.elseWithoutIf block position)
    | some _ :: _ => .error (.duplicateElse block position)
    | none :: outer =>
      match linkFrom block (some position :: outer) (position + 1) ns with
      | .error fault => .error fault
      | .ok (ns, closed) =>
        .ok (⟨index, .otherwise (closed.head?.map Prod.snd)⟩ :: ns, closed)
  | opened, position, ⟨index, .endIf⟩ :: ns =>
    match opened with
    | [] => .error (.unexpectedEnd block position)
    | elseAt :: outer =>
      match linkFrom block outer (position + 1) ns with
      | .error fault => .error fault
      | .ok (ns, closed) => .ok (⟨index, .endIf⟩ :: ns, (elseAt, position) :: closed)
  | opened, position, n :: ns =>
    match linkFrom block opened (position + 1) ns with
    | .error fault => .error fault
    | .ok (ns, closed) => .ok (n :: ns, closed)

/-- The nodes of a block with the partners of every branch linked. -/
def link (block : String) (nodes : List Node) : Except Fault (List Node) :=
  (linkFrom block [] 0 nodes).map Prod.fst

end SceneScript.Block
