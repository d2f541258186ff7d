import SceneScript.Proofs.Block.Assembly

/-!
# Which blocks are accepted

Blocks can be placed if each of them is well nested and their names differ.  Placed blocks can be emitted unless a
statement enters a block that does not exist; the first such entry, in the order of the code, is the fault.

    emit .endless table placed = .error fault ↔ fault is the first entry of a missing block
                                                                     (emit_eq_error_iff)
    Accepted sym blocks ↔ every block has nodes, the names differ and the entries lead to blocks
                                                                     (accepted_iff)
-/

namespace SceneScript

/-- The block that the statement enters, if it enters one. -/
def Statement.target? (s : Statement) : Option String :=
  match s.keyword, s.args with
  | .entry, text :: _ => some (trimmed text)
  | _, _ => none

/-- The blocks that a block enters, in the order of its statements. -/
def Block.targets (b : Block) : List String := b.statements.filterMap Statement.target?

/-- The blocks can be placed from an empty table and then emitted. -/
def Accepted (sym : Symbols) (blocks : List Block) : Prop :=
  ∃ placed table code, Block.place sym .empty blocks = .ok (placed, table) ∧
    PlacedBlock.emit .endless table placed = .ok code

/-! ## Targets -/

/-- The block that a node enters, if it enters one. -/
def NodeKind.target? : NodeKind → Option String
  | .entry block => some block
  | _ => none

theorem Statement.target?_of_node {sym : Symbols} {s : Statement} {k : NodeKind} (h : s.node sym = .ok k) :
    k.target? = s.target? := by
  unfold node at h
  unfold Statement.target?
  cases hk : s.keyword with
  | entry =>
    rw [hk] at h
    obtain ⟨text, harg, h⟩ := exists_of_argument h
    cases h
    unfold argument at harg
    cases hargs : s.args with
    | nil => simp [hargs] at harg
    | cons a as =>
      rw [hargs] at harg
      cases harg
      rfl
  | otherwise | endIf | ret | stop | unbind =>
    rw [hk] at h
    cases h
    rfl
  | yield =>
    rw [hk] at h
    cases hargs : s.args with
    | nil =>
      rw [hargs] at h
      cases h
      rfl
    | cons text rest =>
      rw [hargs] at h
      obtain ⟨e, -, rfl⟩ := map_eq_ok_iff.1 h
      rfl
  | ifThen | action | compute =>
    rw [hk] at h
    obtain ⟨text, -, h⟩ := exists_of_argument h
    obtain ⟨e, -, rfl⟩ := map_eq_ok_iff.1 h
    rfl
  | bind =>
    rw [hk] at h
    obtain ⟨text, -, h⟩ := exists_of_argument h
    cases h
    rfl

theorem Statement.node_of_target? {sym : Symbols} {s : Statement} {target : String}
    (h : s.target? = some target) : s.node sym = .ok (.entry target) := by
  unfold target? at h
  split at h
  · next hkeyword hargs =>
    cases h
    simp [node, hkeyword, argument, hargs]
  · cases h

/-- The blocks that a plan enters, in the order of its steps. -/
def Plan.targets (p : Plan Step) : List String := p.kinds.filterMap NodeKind.target?

theorem Block.Means.targets_eq {sym : Symbols} {b : Block} {r : Routine} (h : b.Means sym r) :
    b.targets = r.plan.targets := by
  have hmap : r.plan.kinds.map NodeKind.target? = b.statements.map Statement.target? :=
    map_eq_of_collect (fun _ _ => Statement.target?_of_node) h.2.1
  have hfilter := congrArg (List.filterMap id) hmap
  rw [List.filterMap_map, List.filterMap_map] at hfilter
  exact hfilter.symm

theorem Block.targets_of_means {sym : Symbols} {blocks : List Block} {rs : List Routine}
    (h : List.Forall₂ (Means sym) blocks rs) :
    blocks.flatMap targets = rs.flatMap fun r => r.plan.targets := by
  induction h with
  | nil => rfl
  | cons hb _ ih => rw [List.flatMap_cons, List.flatMap_cons, hb.targets_eq, ih]

theorem Block.names_of_means {sym : Symbols} {blocks : List Block} {rs : List Routine}
    (h : List.Forall₂ (Means sym) blocks rs) : blocks.map name = rs.map Routine.name := by
  induction h with
  | nil => rfl
  | cons hb _ ih => rw [List.map_cons, List.map_cons, hb.1, ih]

/-! ## The first fault of the code -/

/-- The fault of entering a block of that name. -/
def BlockTable.faultOf? (table : BlockTable) (name : String) : Option Fault := errorOf (table.get name)

theorem BlockTable.faultOf?_eq (table : BlockTable) (name : String) :
    table.faultOf? name = if table.find? name = none then some (.noSuchBlock name) else none := by
  unfold faultOf? get
  cases table.find? name <;> simp [errorOf]

theorem Step.errorOf_lower (table : BlockTable) (s : Step) :
    errorOf (s.lower table) = s.kind.target?.bind table.faultOf? := by
  cases s with
  | perform i => rfl
  | enter block =>
    simp only [lower, kind, NodeKind.target?, Option.bind_some, BlockTable.faultOf?]
    cases table.get block <;> rfl

theorem Plan.findSome?_code (table : BlockTable) (p : Plan Step) (start : Nat) :
    (p.code (Step.lower table) .ok start).findSome? errorOf = p.targets.findSome? table.faultOf? := by
  induction p generalizing start with
  | done => rfl
  | act s rest ih =>
    rw [code, List.findSome?_cons, Step.errorOf_lower, ih]
    simp only [targets, kinds, List.filterMap_cons]
    cases s.kind.target? with
    | none => rfl
    | some name => rw [Option.bind_some, List.findSome?_cons]
  | branch test body rest ihbody ihrest =>
    simp only [code, targets, kinds, List.findSome?_cons, List.findSome?_append, List.filterMap_cons,
      List.filterMap_append, NodeKind.target?, errorOf, ihbody, ihrest]
  | fork test body other rest ihbody ihother ihrest =>
    simp only [code, targets, kinds, List.findSome?_cons, List.findSome?_append, List.filterMap_cons,
      List.filterMap_append, NodeKind.target?, errorOf, ihbody, ihother, ihrest]

/-- The code of routines fails with the first entry of a block that the table does not know. -/
theorem Routine.findSome?_codeFrom {table : BlockTable} {rs : List Routine}
    (hknown : ∀ r ∈ rs, table.find? r.name ≠ none) (head : Nat) :
    (codeFrom (Step.lower table) .ok head rs).findSome? errorOf =
      (rs.flatMap fun r => r.plan.targets).findSome? table.faultOf? := by
  induction rs generalizing head with
  | nil => rfl
  | cons r rs ih =>
    have hentry : errorOf (Step.lower table (.enter r.name)) = none := by
      rw [Step.errorOf_lower, Step.kind, NodeKind.target?, Option.bind_some, BlockTable.faultOf?_eq,
        if_neg (hknown r List.mem_cons_self)]
    rw [codeFrom, List.findSome?_append, ih (fun r' hr' => hknown r' (List.mem_cons_of_mem _ hr')),
      List.flatMap_cons, List.findSome?_append, code, List.findSome?_cons, hentry,
      List.findSome?_append, Plan.findSome?_code]
    simp [errorOf]

theorem BlockTable.findSome?_faultOf? {table : BlockTable} {names : List String}
    (hnames : ∀ name, table.find? name = none ↔ name ∉ names) (targets : List String) :
    targets.findSome? table.faultOf? = (targets.find? fun name => name ∉ names).map .noSuchBlock := by
  induction targets with
  | nil => rfl
  | cons name targets ih =>
    rw [List.findSome?_cons, faultOf?_eq, ih, List.find?_cons]
    by_cases h : name ∈ names
    · simp [hnames, h]
    · simp [hnames, h]

/-! ## Placing -/

/-- The table of routines knows their names and no others. -/
theorem Routine.find?_enterFrom_eq_none_iff {rs : List Routine} (hnodup : (rs.map Routine.name).Nodup)
    (name : String) : (enterFrom .empty 0 rs).find? name = none ↔ name ∉ rs.map Routine.name := by
  rw [← Option.map_eq_none_iff (f := BlockInfo.offset), find?_enterFrom_empty hnodup, headFrom?_eq_none_iff]

/-- An entry of another name leaves names that are not in the table out of it. -/
theorem BlockTable.find?_insert_of_not_mem {α : Type} {f : α → String} {as : List α} {name : String} {t : BlockTable}
    (info : BlockInfo) (hname : name ∉ as.map f) (hnone : ∀ a ∈ as, t.find? (f a) = none) :
    ∀ a ∈ as, (t.insert name info).find? (f a) = none := by
  intro a ha
  have hne : name ≠ f a := by
    rintro rfl
    exact hname (List.mem_map_of_mem ha)
  rw [BlockTable.find?_insert, if_neg hne]
  exact hnone a ha

namespace Block

theorem placeFrom_of_means {sym : Symbols} {blocks : List Block} {rs : List Routine}
    (h : List.Forall₂ (Means sym) blocks rs) :
    ∀ {table : BlockTable} {offset : Nat}, (rs.map Routine.name).Nodup →
      (∀ r ∈ rs, table.find? r.name = none) →
      placeFrom sym table offset blocks =
        .ok (Routine.placeFrom offset rs, Routine.enterFrom table offset rs) := by
  induction h with
  | nil =>
    intro table offset _ _
    rfl
  | @cons b r bs rs hb _ ih =>
    intro table offset hnodup hnone
    rw [List.map_cons, List.nodup_cons] at hnodup
    have hnodes : b.nodes sym = .ok r.nodes := (nodes_eq_ok_iff sym b r.nodes).2 ⟨r, hb, rfl⟩
    have hfresh : table.find? r.name = none := hnone r List.mem_cons_self
    have hrest := BlockTable.find?_insert_of_not_mem ⟨offset, r.nodes.length⟩ hnodup.1
      fun r' hr' => hnone r' (List.mem_cons_of_mem _ hr')
    rw [placeFrom, hnodes]
    simp only [hfresh, Option.isSome_none, Bool.false_eq_true, if_false, hb.1, Routine.size_placed,
      ih hnodup.2 hrest]
    rfl

/-- Blocks can be placed if and only if they mean routines with different names. -/
theorem place_eq_ok_iff {sym : Symbols} {blocks : List Block} {placed : List PlacedBlock}
    {table : BlockTable} :
    place sym .empty blocks = .ok (placed, table) ↔
      ∃ rs, List.Forall₂ (Means sym) blocks rs ∧ (rs.map Routine.name).Nodup ∧
        placed = Routine.placeFrom 0 rs ∧ table = Routine.enterFrom .empty 0 rs := by
  constructor
  · intro h
    obtain ⟨rs, hmeans, hplaced, htable, hnodup, -⟩ := exists_routines_of_placeFrom h
    exact ⟨rs, hmeans, hnodup, hplaced, htable⟩
  · rintro ⟨rs, hmeans, hnodup, rfl, rfl⟩
    exact placeFrom_of_means hmeans hnodup fun _ _ => rfl

end Block

/-! ## Emitting -/

section

variable {sym : Symbols} {blocks : List Block} {placed : List PlacedBlock} {table : BlockTable}

/-- **Only the entry of a missing block makes placed blocks fail**, and the first one is the fault. -/
theorem emit_eq_error_iff (h : Block.place sym .empty blocks = .ok (placed, table)) (fault : Fault) :
    PlacedBlock.emit .endless table placed = .error fault ↔
      ∃ name, (blocks.flatMap Block.targets).find? (fun name => name ∉ blocks.map Block.name) = some name ∧
        fault = .noSuchBlock name := by
  obtain ⟨rs, hmeans, hnodup, rfl, rfl⟩ := Block.place_eq_ok_iff.1 h
  have hnames := Routine.find?_enterFrom_eq_none_iff hnodup
  have hknown : ∀ r ∈ rs, (Routine.enterFrom .empty 0 rs).find? r.name ≠ none := by
    intro r hr hnone
    exact (hnames r.name).1 hnone (List.mem_map_of_mem hr)
  rw [Routine.emit_enterFrom hmeans hnodup, collect_eq_error_iff, Routine.findSome?_codeFrom hknown,
    BlockTable.findSome?_faultOf? hnames, Block.targets_of_means hmeans, Block.names_of_means hmeans,
    Option.map_eq_some_iff]
  simp only [eq_comm]

theorem exists_emit_iff (h : Block.place sym .empty blocks = .ok (placed, table)) :
    (∃ code, PlacedBlock.emit .endless table placed = .ok code) ↔
      ∀ name ∈ blocks.flatMap Block.targets, name ∈ blocks.map Block.name := by
  have hfault := emit_eq_error_iff h
  cases hemit : PlacedBlock.emit .endless table placed with
  | ok code =>
    have hnone : (blocks.flatMap Block.targets).find? (fun name => name ∉ blocks.map Block.name) = none := by
      rw [Option.eq_none_iff_forall_ne_some]
      intro name hname
      have := (hfault (.noSuchBlock name)).2 ⟨name, hname, rfl⟩
      rw [hemit] at this
      cases this
    rw [List.find?_eq_none] at hnone
    simpa using hnone
  | error fault =>
    obtain ⟨name, hname, -⟩ := (hfault fault).1 hemit
    have hmem := List.mem_of_find?_eq_some hname
    have hmissing := List.find?_some hname
    constructor
    · rintro ⟨code, hcode⟩
      cases hcode
    · intro hall
      simp [hall name hmem] at hmissing

end

/-! ## Accepting -/

theorem Block.exists_means_iff {sym : Symbols} {blocks : List Block} :
    (∃ rs, List.Forall₂ (Means sym) blocks rs) ↔ ∀ b ∈ blocks, ∃ ns, b.nodes sym = .ok ns := by
  constructor
  · rintro ⟨rs, h⟩
    induction h with
    | nil => simp
    | @cons b r _ _ hb _ ih =>
      intro b' hb'
      rcases List.mem_cons.1 hb' with rfl | hb'
      · exact ⟨r.nodes, (nodes_eq_ok_iff sym b' r.nodes).2 ⟨r, hb, rfl⟩⟩
      · exact ih b' hb'
  · intro h
    induction blocks with
    | nil => exact ⟨[], .nil⟩
    | cons b blocks ih =>
      obtain ⟨rs, hrs⟩ := ih fun b' hb' => h b' (List.mem_cons_of_mem _ hb')
      obtain ⟨ns, hns⟩ := h b List.mem_cons_self
      obtain ⟨r, hr, -⟩ := (nodes_eq_ok_iff sym b ns).1 hns
      exact ⟨r :: rs, .cons hr hrs⟩

/-- **Acceptance, block by block**: nothing in it depends on where the blocks stand. -/
theorem accepted_iff {sym : Symbols} {blocks : List Block} :
    Accepted sym blocks ↔
      (∀ b ∈ blocks, ∃ ns, b.nodes sym = .ok ns) ∧ (blocks.map Block.name).Nodup ∧
        ∀ b ∈ blocks, ∀ name ∈ b.targets, name ∈ blocks.map Block.name := by
  have htargets : (∀ name ∈ blocks.flatMap Block.targets, name ∈ blocks.map Block.name) ↔
      ∀ b ∈ blocks, ∀ name ∈ b.targets, name ∈ blocks.map Block.name := by
    simp only [List.mem_flatMap]
    exact ⟨fun h b hb name hname => h name ⟨b, hb, hname⟩, fun h name ⟨b, hb, hname⟩ => h b hb name hname⟩
  rw [← htargets, ← Block.exists_means_iff]
  constructor
  · rintro ⟨placed, table, code, hplace, hemit⟩
    obtain ⟨rs, hmeans, hnodup, -, -⟩ := Block.place_eq_ok_iff.1 hplace
    rw [← Block.names_of_means hmeans] at hnodup
    exact ⟨⟨rs, hmeans⟩, hnodup, (exists_emit_iff hplace).1 ⟨code, hemit⟩⟩
  · rintro ⟨⟨rs, hmeans⟩, hnodup, hall⟩
    rw [Block.names_of_means hmeans] at hnodup
    have hplace := Block.place_eq_ok_iff.2 ⟨rs, hmeans, hnodup, rfl, rfl⟩
    obtain ⟨code, hemit⟩ := (exists_emit_iff hplace).2 hall
    exact ⟨_, _, code, hplace, hemit⟩

end SceneScript
