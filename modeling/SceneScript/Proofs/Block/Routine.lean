import Mathlib.Data.List.Forall2
import SceneScript.Proofs.Block.Plan

/-!
# Routines

A routine is a named plan, the structured form of a block.  Blocks that can be placed are exactly the blocks of
routines with different names, and the emitted code is the code of the routines one after another: the
range check never fails, and the only fault left is an entry of a block that does not exist.

    place sym .empty blocks = .ok (placed, table) → blocks mean routines, placed one after another
                                                                     (exists_routines_of_placeFrom)
    emit .endless table (placeFrom 0 rs) = collect id (codeFrom (Step.lower table) .ok 0 rs)
                                                                     (emit_placeFrom)
-/

namespace SceneScript

/-- A named plan. -/
structure Routine where
  name : String
  plan : Plan Step

namespace Routine

variable {β : Type}

/-- How many instructions a routine becomes. -/
def size (r : Routine) : Nat := r.plan.size + 2

/-- How many instructions routines become. -/
def totalSize : List Routine → Nat
  | [] => 0
  | r :: rs => r.size + totalSize rs

/-- The nodes of a routine, numbered and linked. -/
def nodes (r : Routine) : List Node :=
  ⟨0, .entry r.name⟩ :: (r.plan.nodes 1 1 ++ [⟨r.plan.size + 1, .plain .blockEnd⟩])

/-- The code of a routine whose first instruction is at `head`. -/
def code (step : Step → β) (fixed : Instruction → β) (head : Nat) (r : Routine) : List β :=
  step (.enter r.name) :: (r.plan.code step fixed (head + 1) ++ [fixed .blockEnd])

/-- The code of routines one after another. -/
def codeFrom (step : Step → β) (fixed : Instruction → β) : Nat → List Routine → List β
  | _, [] => []
  | head, r :: rs => r.code step fixed head ++ codeFrom step fixed (head + r.size) rs

/-- The blocks of routines one after another. -/
def placeFrom : Nat → List Routine → List PlacedBlock
  | _, [] => []
  | head, r :: rs => ⟨r.name, head, r.nodes⟩ :: placeFrom (head + r.size) rs

/-- The table with the routines, placed one after another, added to it. -/
def enterFrom : BlockTable → Nat → List Routine → BlockTable
  | table, _, [] => table
  | table, head, r :: rs =>
    enterFrom (table.insert r.name ⟨head, r.nodes.length⟩) (head + r.size) rs

/-- Where the first routine of that name starts. -/
def headFrom? : Nat → List Routine → String → Option Nat
  | _, [], _ => none
  | head, r :: rs, name => if r.name = name then some head else headFrom? (head + r.size) rs name

@[simp] theorem length_code (step : Step → β) (fixed : Instruction → β) (head : Nat) (r : Routine) :
    (r.code step fixed head).length = r.size := by
  simp [code, size]

theorem length_codeFrom (step : Step → β) (fixed : Instruction → β) (head : Nat)
    (rs : List Routine) : (codeFrom step fixed head rs).length = totalSize rs := by
  induction rs generalizing head with
  | nil => rfl
  | cons r rs ih => simp [codeFrom, totalSize, ih]

theorem length_placeFrom (head : Nat) (rs : List Routine) : (placeFrom head rs).length = rs.length := by
  induction rs generalizing head with
  | nil => rfl
  | cons r rs ih => simp [placeFrom, ih]

theorem headFrom?_eq_none_iff {head : Nat} {rs : List Routine} {name : String} :
    headFrom? head rs name = none ↔ name ∉ rs.map Routine.name := by
  induction rs generalizing head with
  | nil => simp [headFrom?]
  | cons r rs ih =>
    rw [headFrom?]
    by_cases h : r.name = name
    · simp [h]
    · simp [h, ih, Ne.symm h]

theorem headFrom?_lt {head h : Nat} {rs : List Routine} {name : String}
    (hh : headFrom? head rs name = some h) : h < head + totalSize rs := by
  induction rs generalizing head with
  | nil => simp [headFrom?] at hh
  | cons r rs ih =>
    rw [headFrom?] at hh
    simp only [totalSize]
    split at hh
    · obtain rfl : head = h := by simpa using hh
      simp only [size]
      omega
    · have := ih hh
      omega

end Routine

/-! ## The nodes of statements -/

namespace Statement

/-- The statement opens a branch with that test. -/
def Tests (sym : Symbols) (s : Statement) (test : Expr) : Prop :=
  s.keyword = .ifThen ∧ ∃ text, s.argument = .ok text ∧ Expr.parse sym text = .ok test

theorem exists_of_argument {s : Statement} {f : String → Except Fault NodeKind} {k : NodeKind}
    (h : (match s.argument with
      | .error fault => Except.error fault
      | .ok text => f text) = .ok k) : ∃ text, s.argument = .ok text ∧ f text = .ok k := by
  cases harg : s.argument with
  | error fault => simp [harg] at h
  | ok text => exact ⟨text, rfl, by simpa [harg] using h⟩

/-- What the node of a statement can be. -/
theorem node_cases {sym : Symbols} {s : Statement} {k : NodeKind} (h : s.node sym = .ok k) :
    (∃ test, s.Tests sym test ∧ k = .branch test none none) ∨
    (s.keyword = .otherwise ∧ k = .otherwise none) ∨
    (s.keyword = .endIf ∧ k = .endIf) ∨
    (s.keyword ∉ [.ifThen, .otherwise, .endIf] ∧ ∃ a : Step, k = a.kind ∧ a.IsLocal) := by
  unfold node at h
  cases hk : s.keyword with
  | ifThen =>
    rw [hk] at h
    obtain ⟨text, harg, h⟩ := exists_of_argument h
    obtain ⟨test, hparse, rfl⟩ := map_eq_ok_iff.1 h
    exact .inl ⟨test, ⟨hk, text, harg, hparse⟩, rfl⟩
  | otherwise =>
    rw [hk] at h
    cases h
    exact .inr (.inl ⟨rfl, rfl⟩)
  | endIf =>
    rw [hk] at h
    cases h
    exact .inr (.inr (.inl ⟨rfl, rfl⟩))
  | ret =>
    rw [hk] at h
    cases h
    exact .inr (.inr (.inr ⟨by simp, .perform .ret, rfl, rfl⟩))
  | stop =>
    rw [hk] at h
    cases h
    exact .inr (.inr (.inr ⟨by simp, .perform .stop, rfl, rfl⟩))
  | unbind =>
    rw [hk] at h
    cases h
    exact .inr (.inr (.inr ⟨by simp, .perform (.unbind _), rfl, rfl⟩))
  | yield =>
    rw [hk] at h
    refine .inr (.inr (.inr ⟨by simp, ?_⟩))
    cases hargs : s.args with
    | nil =>
      rw [hargs] at h
      cases h
      exact ⟨.perform (.yield none), rfl, rfl⟩
    | cons text rest =>
      rw [hargs] at h
      obtain ⟨e, -, rfl⟩ := map_eq_ok_iff.1 h
      exact ⟨.perform (.yield (some e)), rfl, rfl⟩
  | action =>
    rw [hk] at h
    obtain ⟨text, -, h⟩ := exists_of_argument h
    obtain ⟨c, -, rfl⟩ := map_eq_ok_iff.1 h
    exact .inr (.inr (.inr ⟨by simp, .perform (.action c.name c.args), rfl, rfl⟩))
  | entry =>
    rw [hk] at h
    obtain ⟨text, -, h⟩ := exists_of_argument h
    cases h
    exact .inr (.inr (.inr ⟨by simp, .enter (trimmed text), rfl, trivial⟩))
  | bind =>
    rw [hk] at h
    obtain ⟨text, -, h⟩ := exists_of_argument h
    cases h
    exact .inr (.inr (.inr ⟨by simp, .perform (.bind (bareName sym text)), rfl, rfl⟩))
  | compute =>
    rw [hk] at h
    obtain ⟨text, -, h⟩ := exists_of_argument h
    obtain ⟨e, -, rfl⟩ := map_eq_ok_iff.1 h
    exact .inr (.inr (.inr ⟨by simp, .perform (.compute e), rfl, rfl⟩))

theorem isFresh_of_node {sym : Symbols} {s : Statement} {k : NodeKind} (h : s.node sym = .ok k) :
    k.IsFresh := by
  obtain ⟨test, -, rfl⟩ | ⟨-, rfl⟩ | ⟨-, rfl⟩ | ⟨-, a, rfl, ha⟩ := node_cases h
  · exact ⟨rfl, rfl⟩
  · rfl
  · trivial
  · cases a with
    | perform i => exact ha
    | enter block => trivial

end Statement

/-! ## The nodes of blocks -/

namespace Block

/-- The block is the routine in the form of statements. -/
def Means (sym : Symbols) (b : Block) (r : Routine) : Prop :=
  b.name = r.name ∧ collect (Statement.node sym) b.statements = .ok r.plan.kinds ∧
    r.plan.All Step.IsLocal

theorem number_nodes (name : String) (kinds : List NodeKind) :
    number 0 ((NodeKind.entry name :: kinds ++ [NodeKind.plain .blockEnd]).map (Node.mk 0)) =
      ⟨0, .entry name⟩ :: (number 1 (kinds.map (Node.mk 0)) ++
        [⟨1 + unmarked (kinds.map (Node.mk 0)), .plain .blockEnd⟩]) := by
  rw [List.cons_append, List.map_cons, number, List.map_append, number_append]
  rfl

/-- The nodes of a block are those of a routine. -/
theorem nodes_eq_ok_iff (sym : Symbols) (b : Block) (ns : List Node) :
    b.nodes sym = .ok ns ↔ ∃ r, b.Means sym r ∧ ns = r.nodes := by
  unfold nodes
  constructor
  · intro h
    cases hk : collect (Statement.node sym) b.statements with
    | error fault => simp [hk] at h
    | ok kinds =>
      simp only [hk, link_eq_ok_iff, number_nodes] at h
      obtain ⟨ms, rfl, htail⟩ := h.of_cons rfl
      obtain ⟨ms, rfl, hbody⟩ := htail.of_concat rfl
      have hfresh : ∀ n ∈ number 1 (kinds.map (Node.mk 0)), n.kind.IsFresh := by
        intro n hn
        have hmem : n.kind ∈ kinds := by
          have := List.mem_map_of_mem (f := Node.kind) hn
          rw [map_kind_number] at this
          simpa using this
        have hall := (collect_eq_ok_iff _ _ _).1 hk
        have : Except.ok n.kind ∈ b.statements.map (Statement.node sym) := by
          rw [hall]
          exact List.mem_map_of_mem hmem
        obtain ⟨s, -, hs⟩ := List.mem_map.1 this
        exact Statement.isFresh_of_node hs
      obtain ⟨p, hp, hlocal⟩ := exists_plan_of_linked hbody hfresh
      obtain rfl : kinds = p.kinds := by simpa [Function.comp_def] using hp
      refine ⟨⟨b.name, p⟩, ⟨rfl, hk, hlocal⟩, ?_⟩
      rw [hbody.unique (p.linked_nodes 1 1), Plan.unmarked_kinds, Nat.add_comm 1]
      rfl
  · rintro ⟨r, ⟨hname, hkinds, hlocal⟩, rfl⟩
    simp only [hkinds, link_eq_ok_iff, number_nodes, hname, Plan.unmarked_kinds, Nat.add_comm 1]
    exact .step rfl ((r.plan.linked_nodes 1 1).append (.step rfl .nil))

end Block

/-! ## Placing -/

@[simp] theorem BlockTable.find?_insert (table : BlockTable) (name other : String)
    (info : BlockInfo) :
    (table.insert name info).find? other = if name = other then some info else table.find? other := by
  unfold BlockTable.find? BlockTable.insert
  by_cases h : name = other <;> simp [h]

namespace Routine

theorem size_placed (name : String) (offset : Nat) (r : Routine) :
    PlacedBlock.size ⟨name, offset, r.nodes⟩ = r.size := by
  show Block.unmarked r.nodes = r.size
  simp only [nodes, Block.unmarked_cons, Block.unmarked_append, Plan.unmarked_nodes, size]
  simp [Block.unmarked, Node.isMarker]
  omega

/-- What the table knows of routines with different names. -/
theorem find?_enterFrom (rs : List Routine) (table : BlockTable) (head : Nat) (name : String)
    (hnodup : (rs.map Routine.name).Nodup) :
    ((enterFrom table head rs).find? name).map BlockInfo.offset =
      (headFrom? head rs name).or ((table.find? name).map BlockInfo.offset) := by
  induction rs generalizing table head with
  | nil => rfl
  | cons r rs ih =>
    obtain ⟨hr, hrs⟩ := List.nodup_cons.1 hnodup
    rw [enterFrom, ih _ _ hrs, headFrom?, BlockTable.find?_insert]
    by_cases h : r.name = name
    · have hnone : headFrom? (head + r.size) rs name = none := by
        rw [headFrom?_eq_none_iff, ← h]
        exact hr
      simp [h, hnone]
    · simp [h]

end Routine

namespace Block

/-- Blocks that can be placed mean routines with different names, which are placed one after another. -/
theorem exists_routines_of_placeFrom {sym : Symbols} {blocks : List Block} :
    ∀ {table table' : BlockTable} {offset : Nat} {placed : List PlacedBlock},
      placeFrom sym table offset blocks = .ok (placed, table') →
      ∃ rs, List.Forall₂ (Means sym) blocks rs ∧ placed = Routine.placeFrom offset rs ∧
        table' = Routine.enterFrom table offset rs ∧ (rs.map Routine.name).Nodup ∧
        ∀ r ∈ rs, table.find? r.name = none := by
  induction blocks with
  | nil =>
    intro table table' offset placed h
    simp only [placeFrom, Except.ok.injEq, Prod.mk.injEq] at h
    obtain ⟨rfl, rfl⟩ := h
    exact ⟨[], .nil, rfl, rfl, .nil, by simp⟩
  | cons b bs ih =>
    intro table table' offset placed h
    rw [placeFrom] at h
    cases hns : b.nodes sym with
    | error fault => simp [hns] at h
    | ok ns =>
      obtain ⟨r, hr, rfl⟩ := (nodes_eq_ok_iff sym b ns).1 hns
      simp only [hns] at h
      split at h
      · cases h
      · next hfresh =>
        cases hrest : placeFrom sym (table.insert b.name ⟨offset, r.nodes.length⟩)
            (offset + PlacedBlock.size ⟨b.name, offset, r.nodes⟩) bs with
        | error fault => simp [hrest] at h
        | ok out =>
          obtain ⟨rest, table₁⟩ := out
          simp only [hrest, Except.ok.injEq, Prod.mk.injEq] at h
          obtain ⟨rfl, rfl⟩ := h
          obtain ⟨rs, hmeans, rfl, rfl, hnodup, hnone⟩ := ih hrest
          -- the names of the rest are not in the table that already holds this one
          have hne : ∀ r' ∈ rs, r.name ≠ r'.name ∧ table.find? r'.name = none := by
            intro r' hr'
            have := hnone r' hr'
            rw [BlockTable.find?_insert, hr.1] at this
            by_cases h : r.name = r'.name
            · simp [h] at this
            · exact ⟨h, by simpa [h] using this⟩
          refine ⟨r :: rs, .cons hr hmeans, ?_, ?_, ?_, ?_⟩
          · rw [Routine.placeFrom, Routine.size_placed, hr.1]
          · rw [Routine.enterFrom, Routine.size_placed, hr.1]
          · rw [List.map_cons, List.nodup_cons]
            refine ⟨fun hmem => ?_, hnodup⟩
            obtain ⟨r', hr', h⟩ := List.mem_map.1 hmem
            exact (hne r' hr').1 h.symm
          · intro r' hr'
            rcases List.mem_cons.1 hr' with rfl | hr'
            · rw [← hr.1]
              simpa using hfresh
            · exact (hne r' hr').2

end Block

/-! ## Emitting -/

theorem PlacedBlock.lowerWithin_eq {total : Nat} {table : BlockTable} {b : PlacedBlock} {n : Node}
    (h : ∀ i, n.lower .endless b.nodes b.offset b.name table = .ok i →
      ∀ d ∈ i.destinations, d ≤ total) :
    lowerWithin .endless total table b n = n.lower .endless b.nodes b.offset b.name table := by
  unfold lowerWithin
  cases hn : n.lower .endless b.nodes b.offset b.name table with
  | error fault => rfl
  | ok i =>
    have hnone : (i.destinations.find? fun d => total < d) = none := by
      rw [List.find?_eq_none]
      intro d hd
      have := h i hn d hd
      simpa using this
    simp only [hnone]

namespace Routine

theorem lower_nodes (table : BlockTable) (head : Nat) (r : Routine) :
    (r.nodes.filter (!·.isMarker)).map (Node.lower .endless r.nodes head r.name table) =
      r.code (Step.lower table) .ok head := by
  have hplan := r.plan.lower_nodes head r.name table r.nodes 1 1 (StandsAt.refl r.nodes).tail.left
  have hentry : Node.lower .endless r.nodes head r.name table ⟨0, .entry r.name⟩ =
      Step.lower table (.enter r.name) := rfl
  have hend : Node.lower .endless r.nodes head r.name table ⟨r.plan.size + 1, .plain .blockEnd⟩ =
      .ok .blockEnd := rfl
  have hfilter : r.nodes.filter (!·.isMarker) = ⟨0, .entry r.name⟩ ::
      ((r.plan.nodes 1 1).filter (!·.isMarker) ++ [⟨r.plan.size + 1, .plain .blockEnd⟩]) := by
    simp [nodes, Node.isMarker]
  rw [hfilter, List.map_cons, List.map_append, hplan, hentry, List.map_cons, hend, List.map_nil]
  rfl

/-- No destination of a routine lies beyond its end or the head of a block. -/
theorem destinations_le {table : BlockTable} {total head : Nat} {r : Routine}
    (hlocal : r.plan.All Step.IsLocal) (hhead : head + r.size ≤ total)
    (htable : ∀ name info, table.find? name = some info → info.offset ≤ total)
    {i : Instruction} (hi : .ok i ∈ r.code (Step.lower table) .ok head) :
    ∀ d ∈ i.destinations, d ≤ total := by
  have hstep : ∀ a : Step, a.IsLocal → ∀ i, a.lower table = .ok i → ∀ d ∈ i.destinations, d ≤ total := by
    intro a ha i hi d hd
    cases a with
    | perform i' =>
      cases hi
      rw [show i.destinations = [] from ha] at hd
      cases hd
    | enter block =>
      obtain ⟨info, hinfo, rfl⟩ := map_eq_ok_iff.1 hi
      obtain rfl : d = info.offset := by simpa [Instruction.destinations] using hd
      unfold BlockTable.get at hinfo
      cases hfind : table.find? block with
      | none => simp [hfind] at hinfo
      | some info' =>
        obtain rfl : info' = info := by simpa [hfind] using hinfo
        exact htable block info' hfind
  rw [code, List.mem_cons, List.mem_append, List.mem_singleton] at hi
  rcases hi with hi | hi | hi
  · exact hstep (.enter r.name) trivial i hi.symm
  · obtain ⟨j, hj⟩ := List.mem_iff_getElem?.1 hi
    have hforward := Plan.forward_of_mem_code (Q := fun x => ∀ i, x = .ok i → ∀ d ∈ i.destinations, d ≤ total)
      hstep hlocal (head + 1) (head + 1 + j) _ (List.mk_add_mem_zipIdx_iff_getElem?.2 hj)
    simp only [size] at hhead
    intro d hd
    cases hforward with
    | step h => exact h i rfl d hd
    | condition h h' =>
      simp only [Instruction.destinations, List.mem_cons, List.not_mem_nil, or_false] at hd
      omega
    | jump h h' =>
      simp only [Instruction.destinations, List.mem_cons, List.not_mem_nil, or_false] at hd
      omega
  · cases hi
    simp [Instruction.destinations]

theorem totalSize_placeFrom (head : Nat) (rs : List Routine) :
    PlacedBlock.totalSize (placeFrom head rs) = totalSize rs := by
  induction rs generalizing head with
  | nil => rfl
  | cons r rs ih => simp [placeFrom, PlacedBlock.totalSize, totalSize, ih, size_placed]

theorem flatMap_placeFrom {table : BlockTable} {total : Nat} {rs : List Routine}
    (hlocal : ∀ r ∈ rs, r.plan.All Step.IsLocal)
    (htable : ∀ name info, table.find? name = some info → info.offset ≤ total)
    (head : Nat) (hhead : head + totalSize rs ≤ total) :
    ((placeFrom head rs).flatMap fun b =>
        (b.nodes.filter (!·.isMarker)).map (PlacedBlock.lowerWithin .endless total table b)) =
      codeFrom (Step.lower table) .ok head rs := by
  induction rs generalizing head with
  | nil => rfl
  | cons r rs ih =>
    simp only [totalSize] at hhead
    rw [placeFrom, List.flatMap_cons, codeFrom,
      ih (fun r' hr' => hlocal r' (List.mem_cons_of_mem _ hr')) (head + r.size) (by omega),
      ← lower_nodes]
    congr 1
    apply List.map_congr_left
    intro n hn
    apply PlacedBlock.lowerWithin_eq
    intro i hi
    apply destinations_le (hlocal r List.mem_cons_self) (by omega : head + r.size ≤ total) htable
    rw [← lower_nodes, ← hi]
    exact List.mem_map_of_mem hn

/-- **The emitted code is the code of the routines one after another.** -/
theorem emit_placeFrom {table : BlockTable} {rs : List Routine}
    (hlocal : ∀ r ∈ rs, r.plan.All Step.IsLocal)
    (htable : ∀ name info, table.find? name = some info → info.offset ≤ totalSize rs) :
    PlacedBlock.emit .endless table (placeFrom 0 rs) =
      collect id (codeFrom (Step.lower table) .ok 0 rs) := by
  unfold PlacedBlock.emit
  rw [totalSize_placeFrom, ← flatMap_placeFrom hlocal htable 0 (by omega), ← collect_flatten]
  congr 2
  funext b
  exact collect_eq_collect_map _ _

end Routine

end SceneScript
