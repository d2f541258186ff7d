import SceneScript.Proofs.Block.Routine

/-!
# Accepted blocks

What it means that blocks can be placed and emitted, said once: they mean routines with different names, all
blocks that are entered exist, and the code is that of the routines one after another.

    place sym .empty blocks = .ok (placed, table) → emit .endless table placed = .ok code →
      ∃ rs, Assembled sym blocks placed code rs                      (exists_assembled)
-/

namespace SceneScript

/-- The instruction of a step, if the blocks start where `heads` says. -/
def Step.instruction (heads : String → Option Nat) : Step → Instruction
  | perform i => i
  | enter block => .blockEntry ((heads block).getD 0)

/-- The step goes on with the next instruction, if with any, and enters a block that exists. -/
def Step.Resolved (heads : String → Option Nat) : Step → Prop
  | perform i => i.destinations = []
  | enter block => ∃ head, heads block = some head

/-- The blocks mean the routines `rs`, and `code` is emitted for them. -/
structure Assembled (sym : Symbols) (blocks : List Block) (placed : List PlacedBlock)
    (code : List Instruction) (rs : List Routine) : Prop where
  means : List.Forall₂ (Block.Means sym) blocks rs
  nodup : (rs.map Routine.name).Nodup
  placed_eq : placed = Routine.placeFrom 0 rs
  code_eq : code = Routine.codeFrom (Step.instruction (Routine.headFrom? 0 rs)) id 0 rs
  resolved : ∀ r ∈ rs, r.plan.All (Step.Resolved (Routine.headFrom? 0 rs))

theorem Step.lower_eq_ok {table : BlockTable} {heads : String → Option Nat}
    (hheads : ∀ name, (table.find? name).map BlockInfo.offset = heads name) {a : Step}
    (hlocal : a.IsLocal) (h : ∃ i, a.lower table = .ok i) :
    a.Resolved heads ∧ a.lower table = .ok (a.instruction heads) := by
  obtain ⟨i, hi⟩ := h
  cases a with
  | perform i' => exact ⟨hlocal, rfl⟩
  | enter block =>
    obtain ⟨info, hinfo, -⟩ := map_eq_ok_iff.1 hi
    unfold BlockTable.get at hinfo
    cases hfind : table.find? block with
    | none => simp [hfind] at hinfo
    | some info' =>
      have hhead : heads block = some info'.offset := by rw [← hheads, hfind, Option.map_some]
      refine ⟨⟨info'.offset, hhead⟩, ?_⟩
      simp [Step.lower, Step.instruction, BlockTable.get, hfind, hhead, Except.map]

namespace Routine

theorem mem_code_plan {β : Type} {step : Step → β} {fixed : Instruction → β} {head : Nat}
    {r : Routine} {x : β} (hx : x ∈ r.plan.code step fixed (head + 1)) : x ∈ r.code step fixed head := by
  simp [code, hx]

/-- Code in which every step has its instruction. -/
theorem codeFrom_lower {table : BlockTable} {heads : String → Option Nat}
    (hheads : ∀ name, (table.find? name).map BlockInfo.offset = heads name) {rs : List Routine}
    (hlocal : ∀ r ∈ rs, r.plan.All Step.IsLocal) (head : Nat)
    (hok : ∀ x ∈ codeFrom (Step.lower table) .ok head rs, ∃ i, x = .ok i) :
    (∀ r ∈ rs, r.plan.All (Step.Resolved heads)) ∧
      codeFrom (Step.lower table) .ok head rs =
        (codeFrom (Step.instruction heads) id head rs).map .ok := by
  induction rs generalizing head with
  | nil => exact ⟨by simp, rfl⟩
  | cons r rs ih =>
    obtain ⟨hrs, hcode⟩ := ih (fun r' hr' => hlocal r' (List.mem_cons_of_mem _ hr')) (head + r.size)
      fun x hx => hok x (by simp [codeFrom, hx])
    have hr := hlocal r List.mem_cons_self
    have hok' : ∀ x ∈ r.plan.code (Step.lower table) .ok (head + 1), ∃ i, x = .ok i :=
      fun x hx => hok x (by simp [codeFrom, mem_code_plan hx])
    have hplan := Plan.all_of_code (head + 1) hok'
    have hboth : r.plan.All fun a =>
        a.Resolved heads ∧ a.lower table = .ok (a.instruction heads) :=
      (hr.and hplan).imp fun a ha => Step.lower_eq_ok hheads ha.1 ha.2
    have hentry : Step.lower table (.enter r.name) = .ok (Step.instruction heads (.enter r.name)) :=
      (Step.lower_eq_ok (a := .enter r.name) hheads trivial (hok _ (by simp [codeFrom, code]))).2
    refine ⟨?_, ?_⟩
    · intro r' hr'
      rcases List.mem_cons.1 hr' with rfl | hr'
      · exact hboth.imp fun _ h => h.1
      · exact hrs r' hr'
    · rw [codeFrom, codeFrom, hcode, List.map_append, code, code, hentry,
        Plan.code_congr (hboth.imp fun _ h => h.2)]
      simp [Plan.map_code, Function.comp_def]

/-- Where the routine at index `k` is placed. -/
theorem exists_placed {β : Type} (step : Step → β) (fixed : Instruction → β) {rs : List Routine} {k : Nat}
    {r : Routine} (h : rs[k]? = some r) (hnodup : (rs.map Routine.name).Nodup) (head : Nat) :
    ∃ j, (placeFrom head rs)[k]? = some ⟨r.name, head + j, r.nodes⟩ ∧
      headFrom? head rs r.name = some (head + j) ∧
      StandsAt (r.code step fixed (head + j)) j (codeFrom step fixed head rs) := by
  induction rs generalizing k head with
  | nil => simp at h
  | cons r' rs ih =>
    rw [List.map_cons, List.nodup_cons] at hnodup
    cases k with
    | zero =>
      obtain rfl : r' = r := by simpa using h
      exact ⟨0, by simp [placeFrom], by simp [headFrom?], (StandsAt.refl _).left⟩
    | succ k =>
      rw [List.getElem?_cons_succ] at h
      obtain ⟨j, hplaced, hhead, pre, post, hcode, rfl⟩ := ih h hnodup.2 (head + r'.size)
      have hne : r'.name ≠ r.name := by
        intro hname
        exact hnodup.1 (hname ▸ List.mem_map_of_mem (List.mem_of_getElem? h))
      refine ⟨r'.size + pre.length, ?_, ?_, r'.code step fixed head ++ pre, post, ?_, by simp⟩
      · rw [placeFrom, List.getElem?_cons_succ, hplaced, Nat.add_assoc]
      · rw [headFrom?, if_neg hne, hhead, Nat.add_assoc]
      · rw [codeFrom, hcode, Nat.add_assoc, List.append_assoc]

end Routine

theorem Block.exists_means_of_getElem? {sym : Symbols} {blocks : List Block} {rs : List Routine}
    (h : List.Forall₂ (Means sym) blocks rs) {k : Nat} {b : Block} (hb : blocks[k]? = some b) :
    ∃ r, rs[k]? = some r ∧ Means sym b r := by
  obtain ⟨hk, rfl⟩ := List.getElem?_eq_some_iff.1 hb
  have hk' : k < rs.length := h.length_eq ▸ hk
  exact ⟨rs[k], List.getElem?_eq_getElem hk', h.get hk hk'⟩

theorem Block.exists_means_of_mem {sym : Symbols} {blocks : List Block} {rs : List Routine}
    (h : List.Forall₂ (Means sym) blocks rs) {r : Routine} (hr : r ∈ rs) : ∃ b, Means sym b r := by
  induction h with
  | nil => cases hr
  | @cons b _ _ _ hb _ ih =>
    rcases List.mem_cons.1 hr with rfl | hr
    · exact ⟨b, hb⟩
    · exact ih hr

theorem Block.isLocal_of_means {sym : Symbols} {blocks : List Block} {rs : List Routine}
    (h : List.Forall₂ (Means sym) blocks rs) : ∀ r ∈ rs, r.plan.All Step.IsLocal := by
  intro r hr
  obtain ⟨b, hb⟩ := exists_means_of_mem h hr
  exact hb.2.2

namespace Routine

/-- The table of routines, placed from the start on, knows where each of them starts. -/
theorem find?_enterFrom_empty {rs : List Routine} (hnodup : (rs.map Routine.name).Nodup) (name : String) :
    ((enterFrom .empty 0 rs).find? name).map BlockInfo.offset = headFrom? 0 rs name := by
  rw [find?_enterFrom _ _ _ _ hnodup]
  simp [BlockTable.find?, BlockTable.empty]

theorem offset_enterFrom_le {rs : List Routine} (hnodup : (rs.map Routine.name).Nodup) {name : String} {info : BlockInfo}
    (hinfo : (enterFrom .empty 0 rs).find? name = some info) : info.offset ≤ totalSize rs := by
  have hhead := find?_enterFrom_empty hnodup name
  rw [hinfo, Option.map_some] at hhead
  have := headFrom?_lt hhead.symm
  omega

/-- What is emitted for routines with different names, entered in the table from the start on. -/
theorem emit_enterFrom {sym : Symbols} {blocks : List Block} {rs : List Routine}
    (hmeans : List.Forall₂ (Block.Means sym) blocks rs) (hnodup : (rs.map Routine.name).Nodup) :
    PlacedBlock.emit .endless (enterFrom .empty 0 rs) (placeFrom 0 rs) =
      collect id (codeFrom (Step.lower (enterFrom .empty 0 rs)) .ok 0 rs) := by
  apply emit_placeFrom (Block.isLocal_of_means hmeans)
  intro name info hinfo
  exact offset_enterFrom_le hnodup hinfo

end Routine

/-- **Accepted blocks mean routines, and their code is that of the routines.** -/
theorem exists_assembled {sym : Symbols} {blocks : List Block} {placed : List PlacedBlock}
    {table : BlockTable} {code : List Instruction}
    (hplace : Block.place sym .empty blocks = .ok (placed, table))
    (hemit : PlacedBlock.emit .endless table placed = .ok code) :
    ∃ rs, Assembled sym blocks placed code rs := by
  obtain ⟨rs, hmeans, rfl, rfl, hnodup, -⟩ := Block.exists_routines_of_placeFrom hplace
  rw [Routine.emit_enterFrom hmeans hnodup, collect_eq_ok_iff, List.map_id] at hemit
  obtain ⟨hresolved, hcode⟩ := Routine.codeFrom_lower (Routine.find?_enterFrom_empty hnodup)
    (Block.isLocal_of_means hmeans) 0 (by
      intro x hx
      rw [hemit] at hx
      obtain ⟨i, -, rfl⟩ := List.mem_map.1 hx
      exact ⟨i, rfl⟩)
  refine ⟨rs, hmeans, hnodup, rfl, ?_, hresolved⟩
  exact (List.map_inj_right fun _ _ h => Except.ok.inj h).1 (hemit.symm.trans hcode)

end SceneScript
