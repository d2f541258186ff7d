import SceneScript.Proofs.Block.Layout

/-!
# Counting in words

The positions in the code of a script are counted on and on, those of nodes that were numbered elsewhere in 64-bit words.
As long as there are no more instructions than words can count, both give the same code, and for blocks that were placed
one after another also the same faults.

    emit .endless table blocks = .ok code → emit .words table blocks = .ok code      (emit_words_of_ok)
    emit .words table placed = emit .endless table placed                            (emit_words_of_place)
-/

namespace SceneScript

variable {table : BlockTable} {blocks : List PlacedBlock} {b : PlacedBlock} {n : Node} {total : Nat}

theorem Counting.place_of_lt {position : Nat} (h : position < UInt64.size) (counting : Counting) :
    counting.place position = position := by
  cases counting with
  | endless => rfl
  | words => exact Nat.mod_eq_of_lt h

/-- All positions to which a node of a block leads can be counted in words. -/
def Node.FitsWords (table : BlockTable) (b : PlacedBlock) (n : Node) : Prop :=
  ∀ i, n.lower .endless b.nodes b.offset b.name table = .ok i → ∀ d ∈ i.destinations, d < UInt64.size

theorem Node.FitsWords.lower_words (h : n.FitsWords table b) :
    n.lower .words b.nodes b.offset b.name table = n.lower .endless b.nodes b.offset b.name table := by
  obtain ⟨index, kind⟩ := n
  rcases kind with i | ⟨test, elseAt, _ | endAt⟩ | ⟨_ | endAt⟩ | _ | name | name
  · rfl
  · rfl
  · refine map_congr_of_ok fun goal hgoal => ?_
    have hd := h _ (map_eq_ok_iff.2 ⟨goal, hgoal, rfl⟩)
    rw [Counting.place_of_lt (hd _ (by simp [Instruction.destinations, Counting.place])),
      Counting.place_of_lt (hd _ (by simp [Instruction.destinations, Counting.place]))]
    rfl
  · rfl
  · refine map_congr_of_ok fun goal hgoal => ?_
    have hd := h _ (map_eq_ok_iff.2 ⟨goal, hgoal, rfl⟩)
    rw [Counting.place_of_lt (hd _ (by simp [Instruction.destinations, Counting.place]))]
    rfl
  · rfl
  · rfl
  · refine map_congr_of_ok fun info hinfo => ?_
    have hd := h _ (map_eq_ok_iff.2 ⟨info, hinfo, rfl⟩)
    rw [Counting.place_of_lt (hd _ (by simp [Instruction.destinations, Counting.place]))]
    rfl

namespace PlacedBlock

/-- **Counting in words makes no difference as long as words can count all positions.** -/
theorem emit_words (h : ∀ b ∈ blocks, ∀ n ∈ b.nodes.filter (!·.isMarker), n.FitsWords table b) :
    emit .words table blocks = emit .endless table blocks := by
  unfold emit
  congr 1
  refine collect_congr fun b hb => collect_congr fun n hn => ?_
  rw [lowerWithin, lowerWithin, (h b hb n hn).lower_words]

theorem fitsWords_of_lowerWithin (htotal : total < UInt64.size) {i : Instruction}
    (h : lowerWithin .endless total table b n = .ok i) : n.FitsWords table b := by
  intro i' hlower d hd
  rw [lowerWithin, hlower] at h
  dsimp only at h
  split at h
  · cases h
  · rename_i hnone
    have hle : d ≤ total := by simpa using List.find?_eq_none.1 hnone d hd
    omega

/-- Code that is emitted is emitted in words, too, if it is not too long for them. -/
theorem emit_words_of_ok (htotal : totalSize blocks < UInt64.size) {code : List Instruction}
    (h : emit .endless table blocks = .ok code) : emit .words table blocks = .ok code := by
  rw [emit_words fun b hb n hn => ?_, h]
  obtain ⟨parts, hparts, -⟩ := map_eq_ok_iff.1 h
  obtain ⟨part, -, hpart⟩ := List.mem_map.1 (((collect_eq_ok_iff _ _ _).1 hparts) ▸ List.mem_map_of_mem hb)
  obtain ⟨i, -, hi⟩ := List.mem_map.1 (((collect_eq_ok_iff _ _ _).1 hpart.symm) ▸ List.mem_map_of_mem hn)
  exact fitsWords_of_lowerWithin htotal hi.symm

/-- **Placed blocks give the same code in words, or the same fault**, if there are not too many instructions. -/
theorem emit_words_of_place {sym : Symbols} {script : List Block}
    (h : Block.place sym .empty script = .ok (blocks, table)) (htotal : totalSize blocks < UInt64.size) :
    emit .words table blocks = emit .endless table blocks := by
  obtain ⟨rs, hmeans, hnodup, rfl, rfl⟩ := Block.place_eq_ok_iff.1 h
  rw [Routine.totalSize_placeFrom] at htotal
  refine emit_words fun b hb n hn i hi d hd => ?_
  obtain ⟨r, hr, offset, rfl, hle⟩ := Routine.exists_of_mem_placeFrom hb
  have hcode : .ok i ∈ r.code (Step.lower (Routine.enterFrom .empty 0 rs)) .ok offset := by
    rw [← Routine.lower_nodes, ← hi]
    exact List.mem_map_of_mem hn
  have := Routine.destinations_le (Block.isLocal_of_means hmeans r hr) (by omega : offset + r.size ≤ Routine.totalSize rs)
    (fun name info hinfo => Routine.offset_enterFrom_le hnodup hinfo) hcode d hd
  omega

end PlacedBlock

/-- So the program of a script may be counted either way. -/
theorem Program.ofBlocks_words {sym : Symbols} {script : List Block}
    (h : Block.place sym .empty script = .ok (blocks, table)) (htotal : PlacedBlock.totalSize blocks < UInt64.size) :
    ofBlocks sym script = (PlacedBlock.emit .words table blocks).map ofCode := by
  rw [ofBlocks, h, PlacedBlock.emit_words_of_place h htotal]

end SceneScript
