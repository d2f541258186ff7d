import SceneScript.Proofs.Block.Layout

/-!
# Relocation

The code of a block depends on the blocks around it in two ways only: tests and jumps move with the block, and
entries lead to where the blocks they name start.  Nor does it matter for acceptance in which order the blocks
stand.

    the same block in two accepted lists → its instructions are relocated    (relocated_of_emit)
-/

namespace SceneScript

/-- The instructions are the same, for a block that starts at `h₁` among the blocks `placed₁` and at `h₂` among
the blocks `placed₂`. -/
inductive Relocated (placed₁ placed₂ : List PlacedBlock) (h₁ h₂ : Nat) : Instruction → Instruction → Prop
  | same {i : Instruction} : i.destinations = [] → Relocated placed₁ placed₂ h₁ h₂ i i
  | condition {test : Expr} {ifTrue ifFalse : Nat} :
      Relocated placed₁ placed₂ h₁ h₂ (.condition test (h₁ + ifTrue) (h₁ + ifFalse))
        (.condition test (h₂ + ifTrue) (h₂ + ifFalse))
  | jump {destination : Nat} :
      Relocated placed₁ placed₂ h₁ h₂ (.jump (h₁ + destination)) (.jump (h₂ + destination))
  | entry {q₁ q₂ : PlacedBlock} : q₁ ∈ placed₁ → q₂ ∈ placed₂ → q₁.name = q₂.name →
      Relocated placed₁ placed₂ h₁ h₂ (.blockEntry q₁.offset) (.blockEntry q₂.offset)

/-- Apart from its links, every node of a block is as its statement gives it. -/
theorem Block.isFresh_of_nodes {sym : Symbols} {b : Block} {ns : List Node} (h : b.nodes sym = .ok ns)
    {n : Node} (hn : n ∈ ns) : n.unlinked.kind.IsFresh := by
  obtain ⟨kinds, hkinds, hlinked⟩ := exists_kinds_of_nodes h
  obtain ⟨place, hplace⟩ := List.mem_iff_getElem?.1 hn
  obtain ⟨m, hm, hunlinked⟩ := exists_of_map_unlinked hlinked.map_unlinked hplace
  have hkind : m.kind ∈ NodeKind.entry b.name :: kinds ++ [NodeKind.plain .blockEnd] := by
    have hmem := List.mem_map_of_mem (f := Node.kind) (List.mem_of_getElem? hm)
    rw [map_kind_number] at hmem
    simpa [Function.comp_def] using hmem
  have hfresh : m.kind.IsFresh := by
    simp only [List.cons_append, List.mem_cons, List.mem_append, List.not_mem_nil, or_false] at hkind
    rcases hkind with hkind | hkind | hkind
    · rw [hkind]
      trivial
    · have hok : Except.ok m.kind ∈ b.statements.map (Statement.node sym) := by
        rw [(collect_eq_ok_iff _ _ _).1 hkinds]
        exact List.mem_map_of_mem hkind
      obtain ⟨s, -, hs⟩ := List.mem_map.1 hok
      exact Statement.isFresh_of_node hs
    · rw [hkind]
      rfl
  rw [← hunlinked]
  obtain ⟨index, kind⟩ := m
  cases kind <;> first | exact hfresh | exact ⟨rfl, rfl⟩ | rfl

section

variable {sym : Symbols} {blocks₁ blocks₂ : List Block} {placed₁ placed₂ : List PlacedBlock}
  {table₁ table₂ : BlockTable}

/-- The same node, lowered in two places. -/
theorem Node.relocated_of_lower (hplace₁ : Block.place sym .empty blocks₁ = .ok (placed₁, table₁))
    (hplace₂ : Block.place sym .empty blocks₂ = .ok (placed₂, table₂)) {n : Node} {siblings : List Node}
    {h₁ h₂ : Nat} {block : String} {i₁ i₂ : Instruction} (hfresh : n.unlinked.kind.IsFresh)
    (hi₁ : n.lower .endless siblings h₁ block table₁ = .ok i₁)
    (hi₂ : n.lower .endless siblings h₂ block table₂ = .ok i₂) : Relocated placed₁ placed₂ h₁ h₂ i₁ i₂ := by
  obtain ⟨index, kind⟩ := n
  cases kind with
  | plain i =>
    cases hi₁
    cases hi₂
    exact .same hfresh
  | branch test elseAt endAt =>
    cases endAt with
    | none => cases hi₁
    | some endAt =>
      obtain ⟨fail, hfail, rfl⟩ := map_eq_ok_iff.1 hi₁
      obtain ⟨fail', hfail', rfl⟩ := map_eq_ok_iff.1 hi₂
      obtain rfl : fail = fail' := Except.ok.inj (hfail.symm.trans hfail')
      simp only [Counting.place, Nat.add_assoc]
      exact .condition
  | otherwise endAt =>
    cases endAt with
    | none => cases hi₁
    | some endAt =>
      obtain ⟨next, hnext, rfl⟩ := map_eq_ok_iff.1 hi₁
      obtain ⟨next', hnext', rfl⟩ := map_eq_ok_iff.1 hi₂
      obtain rfl : next = next' := Except.ok.inj (hnext.symm.trans hnext')
      exact .jump
  | endIf => cases hi₁
  | entry name =>
    obtain ⟨info₁, hinfo₁, rfl⟩ := map_eq_ok_iff.1 hi₁
    obtain ⟨info₂, hinfo₂, rfl⟩ := map_eq_ok_iff.1 hi₂
    obtain ⟨q₁, hq₁, hname₁, hoffset₁⟩ := exists_placed_of_get hplace₁ hinfo₁
    obtain ⟨q₂, hq₂, hname₂, hoffset₂⟩ := exists_placed_of_get hplace₂ hinfo₂
    rw [← hoffset₁, ← hoffset₂]
    exact .entry hq₁ hq₂ (hname₁.trans hname₂.symm)
  | skip name => exact absurd hfresh (by simp [unlinked, NodeKind.IsFresh])

end

/-- The order of the blocks does not matter for acceptance. -/
theorem Accepted.perm {sym : Symbols} {blocks₁ blocks₂ : List Block} (h : Accepted sym blocks₁)
    (hperm : blocks₂.Perm blocks₁) : Accepted sym blocks₂ := by
  rw [accepted_iff] at h ⊢
  obtain ⟨hnodes, hnodup, htargets⟩ := h
  have hnames : (blocks₂.map Block.name).Perm (blocks₁.map Block.name) := hperm.map _
  refine ⟨fun b hb => hnodes b (hperm.mem_iff.1 hb), hnames.nodup_iff.2 hnodup, ?_⟩
  intro b hb name hname
  rw [hnames.mem_iff]
  exact htargets b (hperm.mem_iff.1 hb) name hname

/-- **The code of a block is relocatable.**  In two lists of accepted blocks, a block that stands in both becomes
the same instructions, relocated; and every permutation of accepted blocks is accepted. -/
theorem relocated_of_emit (sym : Symbols) {blocks₁ blocks₂ : List Block} {placed₁ placed₂ : List PlacedBlock}
    {table₁ table₂ : BlockTable} {code₁ code₂ : List Instruction}
    (hplace₁ : Block.place sym .empty blocks₁ = .ok (placed₁, table₁))
    (hemit₁ : PlacedBlock.emit .endless table₁ placed₁ = .ok code₁)
    (hplace₂ : Block.place sym .empty blocks₂ = .ok (placed₂, table₂))
    (hemit₂ : PlacedBlock.emit .endless table₂ placed₂ = .ok code₂)
    {k₁ k₂ : Nat} {b : Block} (hb₁ : blocks₁[k₁]? = some b) (hb₂ : blocks₂[k₂]? = some b) :
    (∃ p₁ p₂, placed₁[k₁]? = some p₁ ∧ placed₂[k₂]? = some p₂ ∧ p₁.size = b.size ∧ p₂.size = b.size ∧
      ∀ j < b.size, ∃ i₁ i₂, code₁[p₁.offset + j]? = some i₁ ∧ code₂[p₂.offset + j]? = some i₂ ∧
        Relocated placed₁ placed₂ p₁.offset p₂.offset i₁ i₂) ∧
      ∀ blocks, blocks.Perm blocks₁ → Accepted sym blocks := by
  obtain ⟨p₁, hp₁, hname₁, hnodes₁, hsize₁⟩ := exists_placed_of_block hplace₁ hemit₁ hb₁
  obtain ⟨p₂, hp₂, hname₂, hnodes₂, hsize₂⟩ := exists_placed_of_block hplace₂ hemit₂ hb₂
  have hnodes : p₂.nodes = p₁.nodes := Except.ok.inj (hnodes₂.symm.trans hnodes₁)
  refine ⟨⟨p₁, p₂, hp₁, hp₂, hsize₁, hsize₂, ?_⟩, ?_⟩
  · intro j hj
    rw [← hsize₁, PlacedBlock.size] at hj
    obtain ⟨n, hn⟩ : ∃ n, (p₁.nodes.filter (!·.isMarker))[j]? = some n := ⟨_, List.getElem?_eq_getElem hj⟩
    obtain ⟨i₁, hlower₁, hi₁⟩ := exists_instruction hplace₁ hemit₁ (List.mem_of_getElem? hp₁) hn
    obtain ⟨i₂, hlower₂, hi₂⟩ := exists_instruction hplace₂ hemit₂ (List.mem_of_getElem? hp₂) (hnodes ▸ hn)
    rw [hnodes, ← hname₂, hname₁] at hlower₂
    have hmem : n ∈ p₁.nodes := (List.mem_filter.1 (List.mem_of_getElem? hn)).1
    exact ⟨i₁, i₂, hi₁, hi₂,
      Node.relocated_of_lower hplace₁ hplace₂ (Block.isFresh_of_nodes hnodes₁ hmem) hlower₁ hlower₂⟩
  · intro blocks hperm
    exact Accepted.perm ⟨placed₁, table₁, code₁, hplace₁, hemit₁⟩ hperm

/-- The tour in the other order, after a prologue. -/
def lateTour : List Block := ⟨"Prologue", [⟨.entry, ["Main"], ""⟩, ⟨.yield, [], ""⟩]⟩ :: tour.reverse

theorem relocated_tour :
    ∃ placed₁ table₁ code₁ placed₂ table₂ code₂ p₁ p₂,
      Block.place .english .empty tour = .ok (placed₁, table₁) ∧
      PlacedBlock.emit .endless table₁ placed₁ = .ok code₁ ∧
      Block.place .english .empty lateTour = .ok (placed₂, table₂) ∧
      PlacedBlock.emit .endless table₂ placed₂ = .ok code₂ ∧
      placed₁[0]? = some p₁ ∧ placed₂[2]? = some p₂ ∧
      (∀ j < 5, ∃ i₁ i₂, code₁[p₁.offset + j]? = some i₁ ∧ code₂[p₂.offset + j]? = some i₂ ∧
        Relocated placed₁ placed₂ p₁.offset p₂.offset i₁ i₂) ∧
      Accepted .english tour.reverse := by
  have haccepted₁ : ∃ placed table code, Block.place .english .empty tour = .ok (placed, table) ∧
      PlacedBlock.emit .endless table placed = .ok code := ⟨_, _, _, rfl, rfl⟩
  have haccepted₂ : ∃ placed table code, Block.place .english .empty lateTour = .ok (placed, table) ∧
      PlacedBlock.emit .endless table placed = .ok code := ⟨_, _, _, rfl, rfl⟩
  obtain ⟨placed₁, table₁, code₁, hplace₁, hemit₁⟩ := haccepted₁
  obtain ⟨placed₂, table₂, code₂, hplace₂, hemit₂⟩ := haccepted₂
  obtain ⟨⟨p₁, p₂, hp₁, hp₂, -, -, hcode⟩, hperm⟩ :=
    relocated_of_emit .english hplace₁ hemit₁ hplace₂ hemit₂ (rfl : tour[0]? = _) (rfl : lateTour[2]? = _)
  exact ⟨placed₁, table₁, code₁, placed₂, table₂, code₂, p₁, p₂, hplace₁, hemit₁, hplace₂, hemit₂, hp₁, hp₂, hcode,
    hperm tour.reverse tour.reverse_perm⟩

end SceneScript
