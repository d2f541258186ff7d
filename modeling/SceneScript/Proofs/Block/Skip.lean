import SceneScript.Proofs.Block.Layout

/-!
# Jumps over blocks

A jump over a block goes by the number of the block's nodes, and the markers are nodes too.  So it leads past a
block without branches; otherwise it leads one instruction further for each branch, into the blocks that follow or,
where these are too short, beyond the code, and there the range check stops it.

    nodes = instructions + branches                                  (Routine.length_nodes)
    the jump over the block at k leads to past placed code k + branches
                                                                     (lower_skip)
-/

namespace SceneScript

/-- How many branches the statements of a block open. -/
def Block.branches (b : Block) : Nat := (b.statements.filter fun s => s.keyword = .ifThen).length

/-- The position just past the block at `k`: where the next block starts, or else the end of the code. -/
def past (placed : List PlacedBlock) (code : List Instruction) (k : Nat) : Nat :=
  match placed[k + 1]? with
  | some next => next.offset
  | none => code.length

/-! ## Markers -/

/-- How many branches a plan has, at any depth. -/
def Plan.branches {α : Type} : Plan α → Nat
  | done => 0
  | act _ rest => rest.branches
  | branch _ body rest => body.branches + rest.branches + 1
  | fork _ body other rest => body.branches + other.branches + rest.branches + 1

def NodeKind.isTest : NodeKind → Bool
  | .branch _ _ _ => true
  | _ => false

@[simp] theorem Step.isTest_kind (s : Step) : s.kind.isTest = false := by
  cases s <;> rfl

namespace Plan

/-- Every branch has one marker. -/
theorem width_eq (p : Plan Step) : p.width = p.size + p.branches := by
  induction p with
  | done => rfl
  | act s rest ih =>
    rw [width, size, branches, ih]
    omega
  | branch test body rest ihbody ihrest =>
    rw [width, size, branches, ihbody, ihrest]
    omega
  | fork test body other rest ihbody ihother ihrest =>
    rw [width, size, branches, ihbody, ihother, ihrest]
    omega

theorem length_tests (p : Plan Step) : (p.kinds.filter NodeKind.isTest).length = p.branches := by
  induction p with
  | done => rfl
  | act s rest ih => simp [kinds, branches, ih]
  | branch test body rest ihbody ihrest =>
    simp [kinds, branches, List.filter_cons, NodeKind.isTest, ihbody, ihrest]
  | fork test body other rest ihbody ihother ihrest =>
    simp [kinds, branches, List.filter_cons, NodeKind.isTest, ihbody, ihother, ihrest]
    omega

end Plan

theorem Statement.isTest_node {sym : Symbols} {s : Statement} {k : NodeKind} (h : s.node sym = .ok k) :
    k.isTest = decide (s.keyword = .ifThen) := by
  obtain ⟨test, htest, rfl⟩ | ⟨hkeyword, rfl⟩ | ⟨hkeyword, rfl⟩ | ⟨hkeyword, a, rfl, -⟩ := node_cases h
  · simp [htest.1, NodeKind.isTest]
  · simp [hkeyword, NodeKind.isTest]
  · simp [hkeyword, NodeKind.isTest]
  · have hne : s.keyword ≠ .ifThen := by
      intro heq
      simp [heq] at hkeyword
    simp [hne]

theorem Block.Means.branches_eq {sym : Symbols} {b : Block} {r : Routine} (h : b.Means sym r) :
    b.branches = r.plan.branches := by
  have hmap : r.plan.kinds.map NodeKind.isTest = b.statements.map fun s => decide (s.keyword = .ifThen) :=
    map_eq_of_collect (fun _ _ => Statement.isTest_node) h.2.1
  have hcount := congrArg (fun tests => (tests.filter id).length) hmap
  simp only [List.filter_map, List.length_map, Function.id_comp] at hcount
  rw [← Plan.length_tests, hcount]
  rfl

/-! ## The entries of the table -/

namespace Routine

theorem length_nodes (r : Routine) : r.nodes.length = r.size + r.plan.branches := by
  simp only [nodes, List.length_cons, List.length_append, Plan.length_nodes, List.length_nil, size, Plan.width_eq]
  omega

theorem find?_enterFrom_of_not_mem {rs : List Routine} {name : String} (h : name ∉ rs.map Routine.name)
    (table : BlockTable) (head : Nat) : (enterFrom table head rs).find? name = table.find? name := by
  induction rs generalizing table head with
  | nil => rfl
  | cons r rs ih =>
    rw [List.map_cons, List.mem_cons, not_or] at h
    rw [enterFrom, ih h.2, BlockTable.find?_insert, if_neg (Ne.symm h.1)]

/-- The table keeps, for each block, where it starts and how many nodes it has. -/
theorem find?_enterFrom_of_mem {rs : List Routine} (hnodup : (rs.map Routine.name).Nodup) (table : BlockTable)
    {head : Nat} {p : PlacedBlock} (hp : p ∈ placeFrom head rs) :
    (enterFrom table head rs).find? p.name = some ⟨p.offset, p.nodes.length⟩ := by
  induction rs generalizing table head with
  | nil => cases hp
  | cons r rs ih =>
    obtain ⟨hr, hrs⟩ := List.nodup_cons.1 hnodup
    rw [placeFrom] at hp
    rw [enterFrom]
    rcases List.mem_cons.1 hp with rfl | hp
    · rw [find?_enterFrom_of_not_mem hr, BlockTable.find?_insert, if_pos rfl]
    · exact ih hrs _ hp

end Routine

/-! ## The ends of blocks -/

theorem PlacedBlock.totalSize_append (ps qs : List PlacedBlock) :
    totalSize (ps ++ qs) = totalSize ps + totalSize qs := by
  induction ps with
  | nil => simp [totalSize]
  | cons p ps ih =>
    rw [List.cons_append, totalSize, totalSize, ih]
    omega

section

variable {sym : Symbols} {blocks : List Block} {placed : List PlacedBlock} {table : BlockTable}
  {code : List Instruction}

/-- What the table knows of a block: where it starts, and how many instructions and branches it has together. -/
theorem find?_of_placed (hplace : Block.place sym .empty blocks = .ok (placed, table))
    (hemit : PlacedBlock.emit .endless table placed = .ok code) {k : Nat} {b : Block} {p : PlacedBlock}
    (hb : blocks[k]? = some b) (hp : placed[k]? = some p) :
    table.find? b.name = some ⟨p.offset, p.size + b.branches⟩ := by
  obtain ⟨b', hb', hname, hnodes, hsize, -⟩ := exists_block_of_placed hplace hemit hp
  obtain rfl : b = b' := Option.some.inj (hb.symm.trans hb')
  obtain ⟨r, hmeans, hr⟩ := (Block.nodes_eq_ok_iff sym b p.nodes).1 hnodes
  obtain ⟨rs, -, hnodup, rfl, rfl⟩ := Block.place_eq_ok_iff.1 hplace
  rw [hname, Routine.find?_enterFrom_of_mem hnodup .empty (List.mem_of_getElem? hp), hr, Routine.length_nodes,
    hsize, hmeans.size_eq, hmeans.branches_eq]

theorem length_eq_totalSize (hplace : Block.place sym .empty blocks = .ok (placed, table))
    (hemit : PlacedBlock.emit .endless table placed = .ok code) :
    code.length = PlacedBlock.totalSize placed := by
  obtain ⟨rs, ha⟩ := exists_assembled hplace hemit
  rw [ha.code_eq, Routine.length_codeFrom, ha.placed_eq, Routine.totalSize_placeFrom]

/-- A block ends where the next one starts, and the last one where the code ends. -/
theorem past_eq (hplace : Block.place sym .empty blocks = .ok (placed, table))
    (hemit : PlacedBlock.emit .endless table placed = .ok code) {k : Nat} {p : PlacedBlock}
    (hp : placed[k]? = some p) : past placed code k = p.offset + p.size := by
  obtain ⟨b, -, -, -, -, hoffset, -⟩ := exists_block_of_placed hplace hemit hp
  have htake : PlacedBlock.totalSize (placed.take (k + 1)) = p.offset + p.size := by
    rw [List.take_add_one, hp, PlacedBlock.totalSize_append, ← hoffset]
    rfl
  unfold past
  cases hnext : placed[k + 1]? with
  | some next =>
    obtain ⟨b', -, -, -, -, hoffset', -⟩ := exists_block_of_placed hplace hemit hnext
    exact hoffset'.trans htake
  | none =>
    rw [List.take_of_length_le (List.getElem?_eq_none_iff.1 hnext)] at htake
    exact (length_eq_totalSize hplace hemit).trans htake

end

/-! ## Jumps -/

theorem Node.lower_skip_of_find? {table : BlockTable} {name : String} {info : BlockInfo}
    (h : table.find? name = some info) (siblings : List Node) (offset : Nat) (block : String) (index : Nat) :
    (Node.mk index (.skip name)).lower .endless siblings offset block table =
      .ok (.jump (info.offset + info.length)) := by
  simp [Node.lower, BlockTable.get, h, Except.map, Counting.place]

/-- The range check lets a jump pass exactly if it does not lead beyond the code. -/
theorem PlacedBlock.lowerWithin_jump {total destination : Nat} {table : BlockTable} {q : PlacedBlock} {n : Node}
    (h : n.lower .endless q.nodes q.offset q.name table = .ok (.jump destination)) :
    q.lowerWithin .endless total table n =
      if destination ≤ total then .ok (.jump destination)
      else .error (.destinationOutOfRange q.name n.index destination total) := by
  unfold lowerWithin
  rw [h]
  by_cases hle : destination ≤ total
  · simp [Instruction.destinations, hle, Nat.not_lt.2 hle]
  · simp [Instruction.destinations, hle, Nat.not_le.1 hle]

/-- **Where a jump over a block leads.**  Wherever it stands, it leads as many instructions too far as the
block has branches, so it leads just past the block exactly if there are none; and it is emitted exactly if
the blocks that follow make up for what it leads too far. -/
theorem lower_skip (sym : Symbols) {blocks : List Block} {placed : List PlacedBlock} {table : BlockTable}
    {code : List Instruction} (hplace : Block.place sym .empty blocks = .ok (placed, table))
    (hemit : PlacedBlock.emit .endless table placed = .ok code) {k : Nat} {b : Block} (hb : blocks[k]? = some b) :
    (∃ p, placed[k]? = some p ∧ p.name = b.name ∧ past placed code k = p.offset + p.size ∧
      code[past placed code k - 1]? = some .blockEnd) ∧
    ∀ (q : PlacedBlock) (index : Nat),
      (Node.mk index (.skip b.name)).lower .endless q.nodes q.offset q.name table =
        .ok (.jump (past placed code k + b.branches)) ∧
      ((Node.mk index (.skip b.name)).lower .endless q.nodes q.offset q.name table =
        .ok (.jump (past placed code k)) ↔ ∀ s ∈ b.statements, s.keyword ≠ .ifThen) ∧
      q.lowerWithin .endless (PlacedBlock.totalSize placed) table ⟨index, .skip b.name⟩ =
        if past placed code k + b.branches ≤ code.length then .ok (.jump (past placed code k + b.branches))
        else .error (.destinationOutOfRange q.name index (past placed code k + b.branches) code.length) := by
  obtain ⟨p, hp, hname, -⟩ := exists_placed_of_block hplace hemit hb
  have hpast := past_eq hplace hemit hp
  have hending := (PlacedBlock.laidOut hplace hemit (List.mem_of_getElem? hp)).ending
  refine ⟨⟨p, hp, hname.symm, hpast, hpast ▸ hending⟩, fun q index => ?_⟩
  have hlower : (Node.mk index (.skip b.name)).lower .endless q.nodes q.offset q.name table =
      .ok (.jump (past placed code k + b.branches)) := by
    rw [Node.lower_skip_of_find? (find?_of_placed hplace hemit hb hp), hpast, Nat.add_assoc]
  refine ⟨hlower, ?_, ?_⟩
  · have hnone : b.branches = 0 ↔ ∀ s ∈ b.statements, s.keyword ≠ .ifThen := by
      simp [Block.branches]
    rw [hlower, ← hnone]
    simp
  · rw [PlacedBlock.lowerWithin_jump hlower, length_eq_totalSize hplace hemit]

/-- A block with a branch, and one behind it. -/
def hallway : List Block :=
  [⟨"Main", [⟨.ifThen, ["@open"], ""⟩, ⟨.entry, ["Hall"], ""⟩, ⟨.endIf, [], ""⟩, .implied .stop]⟩,
    ⟨"Hall", [.implied .ret]⟩]

theorem lower_skip_hallway :
    ∃ placed table code, Block.place .english .empty hallway = .ok (placed, table) ∧
      PlacedBlock.emit .endless table placed = .ok code ∧
      past placed code 0 = 5 ∧ past placed code 1 = code.length ∧
      (Node.mk 0 (.skip "Main")).lower .endless [] 0 "Main" table = .ok (.jump 6) ∧
      (Node.mk 0 (.skip "Hall")).lower .endless [] 0 "Main" table = .ok (.jump 8) := by
  have haccepted : ∃ placed table code, Block.place .english .empty hallway = .ok (placed, table) ∧
      PlacedBlock.emit .endless table placed = .ok code ∧ past placed code 0 = 5 ∧ past placed code 1 = 8 ∧
      code.length = 8 := ⟨_, _, _, rfl, rfl, rfl, rfl, rfl⟩
  obtain ⟨placed, table, code, hplace, hemit, hmain, hhall, hlength⟩ := haccepted
  have hover := ((lower_skip .english hplace hemit (k := 0) rfl).2 ⟨"Main", 0, []⟩ 0).1
  have hpast := ((lower_skip .english hplace hemit (k := 1) rfl).2 ⟨"Main", 0, []⟩ 0).1
  rw [hmain] at hover
  rw [hhall] at hpast
  exact ⟨placed, table, code, hplace, hemit, hmain, hhall.trans hlength.symm, hover, hpast⟩

/-- The jump over a last block with a branch leads beyond the code and is not emitted. -/
theorem skip_beyond_code :
    ∃ placed table code, Block.place .english .empty [⟨"Main", [⟨.ifThen, ["@open"], ""⟩, .implied .endIf]⟩] =
        .ok (placed, table) ∧
      PlacedBlock.emit .endless table placed = .ok code ∧ past placed code 0 = 3 ∧ code.length = 3 ∧
      (Node.mk 0 (.skip "Main")).lower .endless [] 0 "Main" table ≠ .ok (.jump (past placed code 0)) ∧
      PlacedBlock.lowerWithin .endless (PlacedBlock.totalSize placed) table ⟨"Main", 0, []⟩ ⟨0, .skip "Main"⟩ =
        .error (.destinationOutOfRange "Main" 0 4 3) := by
  refine ⟨_, _, _, rfl, rfl, rfl, rfl, ?_, rfl⟩
  intro h
  cases h

end SceneScript
