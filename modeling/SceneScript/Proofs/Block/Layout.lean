import SceneScript.Proofs.Block.Acceptance
import SceneScript.Proofs.Block.Flow

/-!
# The layout of the code

Nodes are numbered in three ways: by their place in the block, by their index, which leaves the markers out, and by
the position of their instruction in the whole code.  For accepted blocks the three agree: the index counts the
nodes before that become instructions, the offset of a block counts those of the blocks before it, and the
instruction of a node stands at the sum of both.

    place sym .empty blocks = .ok (placed, table) → emit .endless table placed = .ok code →
      every placed block is laid out, one after another              (laidOut_of_emit)
-/

namespace SceneScript

/-- Where the nodes of a placed block, and their instructions in the whole code, stand. -/
structure PlacedBlock.LaidOut (table : BlockTable) (code : List Instruction) (p : PlacedBlock) : Prop where
  /-- The index of a node counts the nodes before it that become instructions. -/
  index : ∀ (place : Nat) n, p.nodes[place]? = some n → n.index = Block.unmarked (p.nodes.take place)
  recorded : (table.find? p.name).map BlockInfo.offset = some p.offset
  lowered : ∀ n ∈ p.nodes, n.isMarker = false →
    ∃ i, n.lower .endless p.nodes p.offset p.name table = .ok i ∧ code[p.offset + n.index]? = some i
  entry : code[p.offset]? = some (.blockEntry p.offset)
  ending : code[p.offset + p.size - 1]? = some .blockEnd

/-! ## Linking changes only the links -/

/-- The node as it was before it was linked. -/
def Node.unlinked (n : Node) : Node :=
  match n.kind with
  | .branch test _ _ => ⟨n.index, .branch test none none⟩
  | .otherwise _ => ⟨n.index, .otherwise none⟩
  | _ => n

@[simp] theorem Node.index_unlinked (n : Node) : n.unlinked.index = n.index := by
  unfold unlinked
  split <;> rfl

@[simp] theorem Node.isMarker_unlinked (n : Node) : n.unlinked.isMarker = n.isMarker := by
  obtain ⟨index, kind⟩ := n
  cases kind <;> rfl

theorem Node.eq_of_unlinked {n m : Node} (h : n.unlinked = m.unlinked) (hm : m.kind.isStep = true) :
    n = m := by
  obtain ⟨index, kind⟩ := n
  obtain ⟨index', kind'⟩ := m
  cases kind' with
  | plain | entry | skip => cases kind <;> simp_all [unlinked]
  | branch | otherwise | endIf => simp [NodeKind.isStep] at hm

namespace Block

theorem Linked.map_unlinked {position : Nat} {ns ms : List Node} (h : Linked position ns ms) :
    ms.map Node.unlinked = ns.map Node.unlinked := by
  induction h with
  | nil => rfl
  | step _ _ ih => rw [List.map_cons, List.map_cons, ih]
  | branch _ _ ihbody ihrest => simp [ihbody, ihrest, Node.unlinked]
  | fork _ _ _ ihbody ihother ihrest => simp [ihbody, ihother, ihrest, Node.unlinked]

theorem exists_of_map_unlinked {ns ms : List Node} (h : ms.map Node.unlinked = ns.map Node.unlinked)
    {place : Nat} {m : Node} (hm : ms[place]? = some m) :
    ∃ n, ns[place]? = some n ∧ n.unlinked = m.unlinked := by
  have hplace := congrArg (fun nodes => nodes[place]?) h
  simp only [List.getElem?_map, hm, Option.map_some] at hplace
  exact Option.map_eq_some_iff.1 hplace.symm

theorem unmarked_map_unlinked (ns : List Node) : unmarked (ns.map Node.unlinked) = unmarked ns := by
  induction ns with
  | nil => rfl
  | cons n ns ih => rw [List.map_cons, unmarked_cons, unmarked_cons, ih, Node.isMarker_unlinked]

/-! ## Indices -/

theorem index_of_number {start : Nat} {ns : List Node} {place : Nat} {n : Node}
    (h : (number start ns)[place]? = some n) :
    n.index = start + unmarked ((number start ns).take place) := by
  induction ns generalizing start place with
  | nil => simp [number] at h
  | cons m ns ih =>
    rw [number] at h ⊢
    cases place with
    | zero =>
      obtain rfl : (⟨start, m.kind⟩ : Node) = n := by simpa using h
      simp [unmarked]
    | succ place =>
      rw [List.getElem?_cons_succ] at h
      have hmarker : (⟨start, m.kind⟩ : Node).isMarker = m.isMarker := rfl
      rw [List.take_succ_cons, unmarked_cons, hmarker, ih h]
      by_cases hm : m.isMarker = true
      · simp [hm]
      · simp [hm]
        omega

/-- The nodes of a block are those of its statements, between an entry and an end, numbered and linked. -/
theorem exists_kinds_of_nodes {sym : Symbols} {b : Block} {ns : List Node} (h : b.nodes sym = .ok ns) :
    ∃ kinds, collect (Statement.node sym) b.statements = .ok kinds ∧
      Linked 0 (number 0 ((NodeKind.entry b.name :: kinds ++ [NodeKind.plain .blockEnd]).map (Node.mk 0))) ns := by
  unfold nodes at h
  cases hk : collect (Statement.node sym) b.statements with
  | error fault => simp [hk] at h
  | ok kinds =>
    simp only [hk, link_eq_ok_iff] at h
    exact ⟨kinds, rfl, h⟩

/-- The index of a node of a block counts the nodes before it that become instructions. -/
theorem index_of_nodes {sym : Symbols} {b : Block} {ns : List Node} (h : b.nodes sym = .ok ns) {place : Nat}
    {n : Node} (hn : ns[place]? = some n) : n.index = unmarked (ns.take place) := by
  obtain ⟨kinds, -, hlinked⟩ := exists_kinds_of_nodes h
  have hsame := hlinked.map_unlinked
  obtain ⟨m, hm, hunlinked⟩ := exists_of_map_unlinked hsame hn
  have hindex : n.index = m.index := by
    rw [← Node.index_unlinked, ← hunlinked, Node.index_unlinked]
  rw [hindex, index_of_number hm, Nat.zero_add, ← unmarked_map_unlinked, List.map_take, ← hsame,
    ← List.map_take, unmarked_map_unlinked]

/-- The node of the statement at `place` comes after the entry of the block. -/
theorem node_of_statement {sym : Symbols} {b : Block} {ns : List Node} (h : b.nodes sym = .ok ns) {place : Nat}
    {s : Statement} (hs : b.statements[place]? = some s) {a : Step} (ha : s.node sym = .ok a.kind) :
    ∃ n, ns[place + 1]? = some n ∧ n.kind = a.kind := by
  obtain ⟨kinds, hkinds, hlinked⟩ := exists_kinds_of_nodes h
  have hkind : kinds[place]? = some a.kind := by
    have hplace := congrArg (fun results => results[place]?) ((collect_eq_ok_iff _ _ _).1 hkinds)
    simp only [List.getElem?_map, hs, Option.map_some, ha] at hplace
    obtain ⟨kind, hkind, heq⟩ := Option.map_eq_some_iff.1 hplace.symm
    rw [hkind, Except.ok.inj heq]
  generalize hms : number 0 ((NodeKind.entry b.name :: kinds ++ [NodeKind.plain .blockEnd]).map (Node.mk 0)) = ms
    at hlinked
  have hplace : (ms.map Node.kind)[place + 1]? = some a.kind := by
    have hlt : place < kinds.length := (List.getElem?_eq_some_iff.1 hkind).1
    rw [← hms, map_kind_number]
    simp [Function.comp_def, List.getElem?_append_left hlt, hkind]
  rw [List.getElem?_map] at hplace
  obtain ⟨m, hm, hmkind⟩ := Option.map_eq_some_iff.1 hplace
  obtain ⟨n, hn, hunlinked⟩ := exists_of_map_unlinked hlinked.map_unlinked.symm hm
  have hstep : m.kind.isStep = true := by
    rw [hmkind]
    exact a.isStep_kind
  obtain rfl := Node.eq_of_unlinked hunlinked hstep
  exact ⟨n, hn, hmkind⟩

end Block

/-! ## Positions -/

/-- Among the elements that satisfy `q`, the one at `place` has as many before it as it has in the whole list. -/
theorem getElem?_filter {α : Type} (q : α → Bool) {xs : List α} {place : Nat} {x : α} (h : xs[place]? = some x)
    (hx : q x = true) : (xs.filter q)[((xs.take place).filter q).length]? = some x := by
  obtain ⟨hlt, rfl⟩ := List.getElem?_eq_some_iff.1 h
  have hsplit : xs.filter q = (xs.take place).filter q ++ xs[place] :: (xs.drop (place + 1)).filter q := by
    conv => lhs; rw [← List.take_append_drop place xs, List.drop_eq_getElem_cons hlt]
    rw [List.filter_append, List.filter_cons_of_pos hx]
  rw [hsplit]
  simp

theorem Routine.offset_placeFrom {rs : List Routine} {head k : Nat} {p : PlacedBlock}
    (h : (placeFrom head rs)[k]? = some p) :
    p.offset = head + PlacedBlock.totalSize ((placeFrom head rs).take k) := by
  induction rs generalizing head k with
  | nil => simp [placeFrom] at h
  | cons r rs ih =>
    rw [placeFrom] at h ⊢
    cases k with
    | zero =>
      obtain rfl : (⟨r.name, head, r.nodes⟩ : PlacedBlock) = p := by simpa using h
      rfl
    | succ k =>
      rw [List.getElem?_cons_succ] at h
      rw [List.take_succ_cons, PlacedBlock.totalSize, size_placed, ih h]
      omega

theorem Routine.map_name_placeFrom (head : Nat) (rs : List Routine) :
    (placeFrom head rs).map PlacedBlock.name = rs.map Routine.name := by
  induction rs generalizing head with
  | nil => rfl
  | cons r rs ih => rw [placeFrom, List.map_cons, List.map_cons, ih]

theorem Routine.exists_mem_placeFrom {rs : List Routine} {head h : Nat} {name : String}
    (hh : headFrom? head rs name = some h) : ∃ q ∈ placeFrom head rs, q.name = name ∧ q.offset = h := by
  induction rs generalizing head with
  | nil => simp [headFrom?] at hh
  | cons r rs ih =>
    rw [headFrom?] at hh
    rw [placeFrom, List.exists_mem_cons_iff]
    split at hh
    · next hname => exact .inl ⟨hname, Option.some.inj hh⟩
    · exact .inr (ih hh)

theorem Routine.exists_of_mem_placeFrom {rs : List Routine} {head : Nat} {p : PlacedBlock}
    (h : p ∈ placeFrom head rs) :
    ∃ r ∈ rs, ∃ offset, p = ⟨r.name, offset, r.nodes⟩ ∧ offset + r.size ≤ head + totalSize rs := by
  induction rs generalizing head with
  | nil => simp [placeFrom] at h
  | cons r rs ih =>
    rw [placeFrom, List.mem_cons] at h
    rw [List.exists_mem_cons_iff, totalSize]
    rcases h with rfl | h
    · exact .inl ⟨head, rfl, by omega⟩
    · obtain ⟨r', hr', offset, hp, hle⟩ := ih h
      exact .inr ⟨r', hr', offset, hp, by omega⟩

section

variable {sym : Symbols} {blocks : List Block} {placed : List PlacedBlock} {table : BlockTable}
  {code : List Instruction}

/-- What there is to know of a block of accepted blocks: its nodes are placed, and their lowerings stand in the
code, where the table says that the block starts. -/
theorem exists_block_of_placed (hplace : Block.place sym .empty blocks = .ok (placed, table))
    (hemit : PlacedBlock.emit .endless table placed = .ok code) {k : Nat} {p : PlacedBlock}
    (hp : placed[k]? = some p) :
    ∃ b, blocks[k]? = some b ∧ b.name = p.name ∧ b.nodes sym = .ok p.nodes ∧ p.size = b.size ∧
      p.offset = PlacedBlock.totalSize (placed.take k) ∧
      (table.find? p.name).map BlockInfo.offset = some p.offset ∧
      StandsAt ((p.nodes.filter (!·.isMarker)).map (Node.lower .endless p.nodes p.offset p.name table))
        p.offset (code.map .ok) := by
  obtain ⟨rs, hmeans, hnodup, rfl, rfl⟩ := Block.place_eq_ok_iff.1 hplace
  rw [Routine.emit_enterFrom hmeans hnodup, collect_eq_ok_iff, List.map_id] at hemit
  have hk : k < rs.length := by
    rw [← Routine.length_placeFrom 0 rs]
    exact (List.getElem?_eq_some_iff.1 hp).1
  have hk' : k < blocks.length := hmeans.length_eq ▸ hk
  have hb : (blocks[k]).Means sym rs[k] := hmeans.get hk' hk
  obtain ⟨j, hplaced, hhead, hat⟩ := Routine.exists_placed (Step.lower (Routine.enterFrom .empty 0 rs)) .ok
    (List.getElem?_eq_getElem hk) hnodup 0
  rw [Nat.zero_add] at hplaced hhead hat
  obtain rfl := Option.some.inj (hplaced.symm.trans hp)
  have hoffset := Routine.offset_placeFrom hp
  refine ⟨blocks[k], List.getElem?_eq_getElem hk', hb.1, ?_, ?_, ?_, ?_, ?_⟩
  · exact (Block.nodes_eq_ok_iff sym _ _).2 ⟨rs[k], hb, rfl⟩
  · rw [Routine.size_placed, hb.size_eq]
  · rwa [Nat.zero_add] at hoffset
  · rw [Routine.find?_enterFrom_empty hnodup, hhead]
  · rw [hemit, ← Routine.lower_nodes] at hat
    exact hat

theorem exists_placed_of_block (hplace : Block.place sym .empty blocks = .ok (placed, table))
    (hemit : PlacedBlock.emit .endless table placed = .ok code) {k : Nat} {b : Block} (hb : blocks[k]? = some b) :
    ∃ p, placed[k]? = some p ∧ b.name = p.name ∧ b.nodes sym = .ok p.nodes ∧ p.size = b.size := by
  have hlength : placed.length = blocks.length := by
    obtain ⟨rs, hmeans, -, rfl, -⟩ := Block.place_eq_ok_iff.1 hplace
    rw [Routine.length_placeFrom, hmeans.length_eq]
  have hk : k < placed.length := by
    rw [hlength]
    exact (List.getElem?_eq_some_iff.1 hb).1
  have hp : placed[k]? = some placed[k] := List.getElem?_eq_getElem hk
  obtain ⟨b', hb', hname, hnodes, hsize, -⟩ := exists_block_of_placed hplace hemit hp
  obtain rfl : b = b' := Option.some.inj (hb.symm.trans hb')
  exact ⟨placed[k], hp, hname, hnodes, hsize⟩

/-- The first node of a placed block enters it, and the last one ends it. -/
theorem exists_nodes_eq (hplace : Block.place sym .empty blocks = .ok (placed, table)) {p : PlacedBlock}
    (hp : p ∈ placed) :
    ∃ body, p.nodes = ⟨0, .entry p.name⟩ :: (body ++ [⟨p.size - 1, .plain .blockEnd⟩]) ∧ 2 ≤ p.size := by
  obtain ⟨rs, -, -, rfl, -⟩ := Block.place_eq_ok_iff.1 hplace
  obtain ⟨r, -, offset, rfl, -⟩ := Routine.exists_of_mem_placeFrom hp
  refine ⟨r.plan.nodes 1 1, ?_, ?_⟩
  · rw [Routine.size_placed]
    rfl
  · rw [Routine.size_placed, Routine.size]
    omega

/-- Where the table has an entry, a block is placed. -/
theorem exists_placed_of_get (hplace : Block.place sym .empty blocks = .ok (placed, table)) {name : String}
    {info : BlockInfo} (h : table.get name = .ok info) :
    ∃ q ∈ placed, q.name = name ∧ q.offset = info.offset := by
  obtain ⟨rs, hmeans, hnodup, rfl, rfl⟩ := Block.place_eq_ok_iff.1 hplace
  unfold BlockTable.get at h
  cases hfind : (Routine.enterFrom .empty 0 rs).find? name with
  | none => simp [hfind] at h
  | some info' =>
    obtain rfl : info' = info := by simpa [hfind] using h
    have hhead := Routine.find?_enterFrom_empty hnodup name
    rw [hfind, Option.map_some] at hhead
    exact Routine.exists_mem_placeFrom hhead.symm

/-- The instructions of a block are the lowerings of its nodes that are no markers, in their order. -/
theorem exists_instruction (hplace : Block.place sym .empty blocks = .ok (placed, table))
    (hemit : PlacedBlock.emit .endless table placed = .ok code) {p : PlacedBlock} (hp : p ∈ placed) {j : Nat}
    {n : Node} (hn : (p.nodes.filter (!·.isMarker))[j]? = some n) :
    ∃ i, n.lower .endless p.nodes p.offset p.name table = .ok i ∧ code[p.offset + j]? = some i := by
  obtain ⟨k, hk⟩ := List.mem_iff_getElem?.1 hp
  obtain ⟨b, -, -, -, -, -, -, hat⟩ := exists_block_of_placed hplace hemit hk
  have hlt := (List.getElem?_eq_some_iff.1 hn).1
  have hget := hat.get (j := j) (by rw [List.length_map]; exact hlt)
  rw [List.getElem?_map, List.getElem?_map, hn, Option.map_some] at hget
  obtain ⟨i, hi, heq⟩ := Option.map_eq_some_iff.1 hget
  exact ⟨i, heq.symm, hi⟩

/-- The instruction of a node stands at the offset of its block plus its index. -/
theorem exists_lowered (hplace : Block.place sym .empty blocks = .ok (placed, table))
    (hemit : PlacedBlock.emit .endless table placed = .ok code) {p : PlacedBlock} (hp : p ∈ placed) {n : Node}
    (hn : n ∈ p.nodes) (hmarker : n.isMarker = false) :
    ∃ i, n.lower .endless p.nodes p.offset p.name table = .ok i ∧ code[p.offset + n.index]? = some i := by
  obtain ⟨k, hk⟩ := List.mem_iff_getElem?.1 hp
  obtain ⟨place, hat⟩ := List.mem_iff_getElem?.1 hn
  obtain ⟨b, -, -, hnodes, -⟩ := exists_block_of_placed hplace hemit hk
  rw [Block.index_of_nodes hnodes hat]
  exact exists_instruction hplace hemit hp (getElem?_filter (fun n : Node => !n.isMarker) hat (by simp [hmarker]))

theorem PlacedBlock.laidOut (hplace : Block.place sym .empty blocks = .ok (placed, table))
    (hemit : emit .endless table placed = .ok code) {p : PlacedBlock} (hp : p ∈ placed) :
    p.LaidOut table code := by
  obtain ⟨k, hk⟩ := List.mem_iff_getElem?.1 hp
  obtain ⟨b, -, -, hnodes, -, -, hrecorded, -⟩ := exists_block_of_placed hplace hemit hk
  obtain ⟨body, hbody, hsize⟩ := exists_nodes_eq hplace hp
  refine ⟨fun place n hn => Block.index_of_nodes hnodes hn, hrecorded,
    fun n hn hmarker => exists_lowered hplace hemit hp hn hmarker, ?_, ?_⟩
  · -- the entry of the block is its node with the index 0
    obtain ⟨i, hlower, hi⟩ := exists_lowered hplace hemit hp (n := ⟨0, .entry p.name⟩) (by simp [hbody]) rfl
    obtain ⟨info, hinfo, rfl⟩ := map_eq_ok_iff.1 hlower
    unfold BlockTable.get at hinfo
    cases hfind : table.find? p.name with
    | none => simp [hfind] at hinfo
    | some info' =>
      obtain rfl : info' = info := by simpa [hfind] using hinfo
      rw [hfind, Option.map_some, Option.some.injEq] at hrecorded
      rw [hrecorded] at hi
      exact hi
  · obtain ⟨i, hlower, hi⟩ := exists_lowered hplace hemit hp (n := ⟨p.size - 1, .plain .blockEnd⟩)
      (by simp [hbody]) rfl
    cases hlower
    rwa [← Nat.add_sub_assoc (by omega)] at hi

end

/-- **The layout of the code.**  Every placed block is laid out and starts where the blocks before it end; the
code is as long as the statements say; and a statement that enters a block, wherever it stands, becomes an
entry of the start of that block. -/
theorem laidOut_of_emit (sym : Symbols) {blocks : List Block} {placed : List PlacedBlock} {table : BlockTable}
    {code : List Instruction} (hplace : Block.place sym .empty blocks = .ok (placed, table))
    (hemit : PlacedBlock.emit .endless table placed = .ok code) :
    placed.map PlacedBlock.name = blocks.map Block.name ∧
      (∀ p ∈ placed, p.LaidOut table code) ∧
      (∀ (k : Nat) p, placed[k]? = some p → p.offset = PlacedBlock.totalSize (placed.take k)) ∧
      code.length = Block.totalSize blocks ∧
      ∀ (k : Nat) b p, blocks[k]? = some b → placed[k]? = some p →
        p.size = b.size ∧
        ∀ (place : Nat) s target, b.statements[place]? = some s → s.target? = some target →
          ∃ n q, p.nodes[place + 1]? = some n ∧ n.kind = .entry target ∧
            q ∈ placed ∧ q.name = target ∧ code[p.offset + n.index]? = some (.blockEntry q.offset) := by
  have hlaid : ∀ p ∈ placed, p.LaidOut table code := fun p hp => PlacedBlock.laidOut hplace hemit hp
  obtain ⟨rs, ha⟩ := exists_assembled hplace hemit
  refine ⟨?_, hlaid, ?_, ha.code_length, ?_⟩
  · rw [ha.placed_eq, Routine.map_name_placeFrom, Block.names_of_means ha.means]
  · intro k p hp
    obtain ⟨b, -, -, -, -, hoffset, -⟩ := exists_block_of_placed hplace hemit hp
    exact hoffset
  · intro k b p hb hp
    obtain ⟨b', hb', -, hnodes, hsize, -⟩ := exists_block_of_placed hplace hemit hp
    obtain rfl : b = b' := Option.some.inj (hb.symm.trans hb')
    refine ⟨hsize, ?_⟩
    intro place s target hs htarget
    obtain ⟨n, hn, hkind⟩ := Block.node_of_statement hnodes hs (a := .enter target)
      (Statement.node_of_target? htarget)
    have hmarker : n.isMarker = false := by
      rw [Node.isMarker, hkind]
      rfl
    obtain ⟨i, hlower, hi⟩ := (hlaid p (List.mem_of_getElem? hp)).lowered n (List.mem_of_getElem? hn) hmarker
    rw [Node.lower, hkind] at hlower
    obtain ⟨info, hinfo, rfl⟩ := map_eq_ok_iff.1 hlower
    obtain ⟨q, hq, hname, hoffset⟩ := exists_placed_of_get hplace hinfo
    exact ⟨n, q, hn, hkind, hq, hname, hoffset ▸ hi⟩

/-- Two blocks that enter each other, and one of them itself. -/
def tour : List Block :=
  [⟨"Main", [⟨.ifThen, ["@open"], ""⟩, ⟨.entry, ["Lane"], ""⟩, ⟨.endIf, [], ""⟩, .implied .stop]⟩,
    ⟨"Lane", [⟨.entry, ["Main"], ""⟩, ⟨.entry, [" Lane "], ""⟩]⟩]

theorem laidOut_tour :
    ∃ placed table code p n q, Block.place .english .empty tour = .ok (placed, table) ∧
      PlacedBlock.emit .endless table placed = .ok code ∧ code.length = 9 ∧
      (∀ p ∈ placed, p.LaidOut table code) ∧ placed[0]? = some p ∧ p.nodes[2]? = some n ∧
      q ∈ placed ∧ q.name = "Lane" ∧ code[p.offset + n.index]? = some (.blockEntry q.offset) := by
  have haccepted : ∃ placed table code p, Block.place .english .empty tour = .ok (placed, table) ∧
      PlacedBlock.emit .endless table placed = .ok code ∧ placed[0]? = some p := ⟨_, _, _, _, rfl, rfl, rfl⟩
  obtain ⟨placed, table, code, p, hplace, hemit, hp⟩ := haccepted
  obtain ⟨-, hlaid, -, hlength, hentry⟩ := laidOut_of_emit .english hplace hemit
  obtain ⟨n, q, hn, -, hq, hname, hcode⟩ := (hentry 0 _ p rfl hp).2 1 _ _ rfl rfl
  exact ⟨placed, table, code, p, n, q, hplace, hemit, hlength, hlaid, hp, hn, hq, hname, hcode⟩

end SceneScript
