import SceneScript.Proofs.Block.Reading

/-!
# Running the code of a block

A run goes through the instructions of one block and records the tests it makes and the instructions it carries
out; the truth values of the tests come from outside.  The structured reading of the statements of the
block records the same, without positions.

    run code last truth code.length (head + 1) 0 = some (plan.exec truth 0).events
                                                                     (run_eq_exec_of_reads)
-/

namespace SceneScript

/-- What a run records. -/
inductive Event where
  | tested (test : Expr)
  | carriedOut (i : Instruction)

/-- Whether a run ends with the instruction. -/
def Instruction.ends : Instruction → Bool
  | ret | stop => true
  | _ => false

/-- One step of a run: what is recorded, and where the run goes on and how many truth values have then been
used, unless it ends. -/
def Instruction.step (truth : Nat → Bool) (position used : Nat) :
    Instruction → List Event × Option (Nat × Nat)
  | condition test ifTrue ifFalse =>
    ([.tested test], some (if truth used then ifTrue else ifFalse, used + 1))
  | jump destination => ([], some (destination, used))
  | i => ([.carriedOut i], if i.ends then none else some (position + 1, used))

/-- What is recorded from `position` on, up to the position `last` or to an instruction that ends the run.  Of
the truth values, `used` have been used before.  A run that leaves the code or does not end within `fuel`
steps has no record. -/
def run (code : List Instruction) (last : Nat) (truth : Nat → Bool) :
    Nat → Nat → Nat → Option (List Event)
  | 0, _, _ => none
  | fuel + 1, position, used =>
    if position = last then some []
    else
      match code[position]? with
      | none => none
      | some i =>
        match i.step truth position used with
        | (events, none) => some events
        | (events, some (next, used)) => (run code last truth fuel next used).map (events ++ ·)

/-- What has been recorded so far and how many truth values have been used, unless the run has ended. -/
structure Progress where
  events : List Event
  used : Option Nat

/-- Goes on with `next` unless the run has ended. -/
def Progress.andThen (p : Progress) (next : Nat → Progress) : Progress :=
  match p.used with
  | none => p
  | some used => ⟨p.events ++ (next used).events, (next used).used⟩

/-- What a plan records. -/
def Plan.exec (truth : Nat → Bool) : Plan Instruction → Nat → Progress
  | done, used => ⟨[], some used⟩
  | act i rest, used =>
    if i.ends then ⟨[.carriedOut i], none⟩
    else Progress.andThen ⟨[.carriedOut i], some used⟩ (rest.exec truth)
  | branch test body rest, used =>
    Progress.andThen ⟨[.tested test], some (used + 1)⟩ fun used' =>
      (if truth used then body.exec truth used' else ⟨[], some used'⟩).andThen (rest.exec truth)
  | fork test body other rest, used =>
    Progress.andThen ⟨[.tested test], some (used + 1)⟩ fun used' =>
      (if truth used then body.exec truth used' else other.exec truth used').andThen (rest.exec truth)

/-! ## Running the code of a plan -/

section

variable {code : List Instruction} {last : Nat} {truth : Nat → Bool}

/-- More steps than needed do no harm. -/
theorem run_mono {fuel position used : Nat} {events : List Event}
    (h : run code last truth fuel position used = some events) (more : Nat) :
    run code last truth (more + fuel) position used = some events := by
  induction fuel generalizing position used events with
  | zero => simp [run] at h
  | succ fuel ih =>
    rw [run] at h
    rw [← Nat.add_assoc, run]
    by_cases hlast : position = last
    · simpa [hlast] using h
    · simp only [hlast, if_false] at h ⊢
      cases hi : code[position]? with
      | none => simp [hi] at h
      | some i =>
        simp only [hi] at h ⊢
        match hstep : i.step truth position used, h with
        | (first, none), h => exact h
        | (first, some (next, used')), h =>
          obtain ⟨rest, hrest, rfl⟩ := Option.map_eq_some_iff.1 h
          simp [ih hrest]

/-- The record of a run from a position with the truth values after `used`, if the run gets there. -/
def Continues (code : List Instruction) (last : Nat) (truth : Nat → Bool) (fuel position : Nat) :
    Option Nat → List Event → Prop
  | none, events => events = []
  | some used, events => run code last truth fuel position used = some events

/-- Within `cost` steps, a run from `start` makes the progress `p` and, unless it ends, comes to `stop`. -/
def Runs (code : List Instruction) (last : Nat) (truth : Nat → Bool) (cost start stop used : Nat)
    (p : Progress) : Prop :=
  ∀ fuel rest, Continues code last truth fuel stop p.used rest →
    run code last truth (cost + fuel) start used = some (p.events ++ rest)

theorem Runs.refl (position used : Nat) :
    Runs code last truth 0 position position used ⟨[], some used⟩ := by
  intro fuel rest h
  rw [Nat.zero_add]
  exact h

theorem Runs.weaken {cost start stop used : Nat} {p : Progress}
    (h : Runs code last truth cost start stop used p) (more : Nat) :
    Runs code last truth (more + cost) start stop used p := by
  intro fuel rest hrest
  rw [Nat.add_assoc]
  exact run_mono (h fuel rest hrest) more

theorem Runs.andThen {cost cost' start middle stop used : Nat} {p : Progress} {next : Nat → Progress}
    (h : Runs code last truth cost start middle used p)
    (hnext : ∀ used', Runs code last truth cost' middle stop used' (next used')) :
    Runs code last truth (cost + cost') start stop used (p.andThen next) := by
  intro fuel rest hrest
  rw [Nat.add_assoc]
  obtain ⟨events, out⟩ := p
  cases out with
  | none => exact h (cost' + fuel) rest hrest
  | some used' =>
    have := h (cost' + fuel) ((next used').events ++ rest) (hnext used' fuel rest hrest)
    simpa [Progress.andThen] using this

theorem Runs.step {position used next used' : Nat} {i : Instruction} {events : List Event}
    (hlast : position < last) (hi : code[position]? = some i)
    (hstep : i.step truth position used = (events, some (next, used'))) :
    Runs code last truth 1 position next used ⟨events, some used'⟩ := by
  intro fuel rest hrest
  have hne : position ≠ last := by omega
  have hrun : run code last truth fuel next used' = some rest := hrest
  rw [Nat.add_comm, run]
  simp [hne, hi, hstep, hrun]

theorem Runs.stop {position used : Nat} {i : Instruction} {events : List Event}
    (hlast : position < last) (hi : code[position]? = some i)
    (hstep : i.step truth position used = (events, none)) (stop : Nat) :
    Runs code last truth 1 position stop used ⟨events, none⟩ := by
  intro fuel rest hrest
  have hne : position ≠ last := by omega
  obtain rfl : rest = [] := hrest
  rw [Nat.add_comm, run]
  simp [hne, hi, hstep]

theorem Runs.test {position ifTrue ifFalse : Nat} {test : Expr} (hlast : position < last)
    (hi : code[position]? = some (.condition test ifTrue ifFalse)) (truth : Nat → Bool) (used : Nat) :
    Runs code last truth 1 position (if truth used then ifTrue else ifFalse) used
      ⟨[.tested test], some (used + 1)⟩ :=
  .step hlast hi rfl

/-- The instruction does not say itself where a run goes on. -/
def Instruction.IsPlain (i : Instruction) : Prop :=
  ∀ truth position used,
    i.step truth position used = ([.carriedOut i], if i.ends then none else some (position + 1, used))

theorem Progress.andThen_pure (p : Progress) : (p.andThen fun used => ⟨[], some used⟩) = p := by
  obtain ⟨events, out⟩ := p
  cases out <;> simp [Progress.andThen]

/-- **A run through the code of a plan records what the plan records**, and goes on behind it. -/
theorem runs_code (p : Plan Instruction) (hp : p.All Instruction.IsPlain) :
    ∀ {start : Nat}, StandsAt (p.code id id start) start code → start + p.size ≤ last →
      ∀ used, Runs code last truth p.size start (start + p.size) used (p.exec truth used) := by
  induction p with
  | done =>
    intro start _ _ used
    exact .refl start used
  | act i p ih =>
    intro start hat hlast used
    simp only [Plan.size] at hlast ⊢
    by_cases hends : i.ends = true
    · have hstep : i.step truth start used = ([.carriedOut i], none) := by
        rw [hp.1, if_pos hends]
      have := Runs.stop (by omega : start < last) hat.head hstep (start + (p.size + 1))
      simpa [Plan.exec, hends] using this.weaken p.size
    · have hstep : i.step truth start used = ([.carriedOut i], some (start + 1, used)) := by
        rw [hp.1, if_neg hends]
      have hfirst := Runs.step (by omega : start < last) hat.head hstep
      have := hfirst.andThen (ih hp.2 hat.tail (by omega))
      have e : start + 1 + p.size = start + (p.size + 1) := by omega
      rw [e, Nat.add_comm 1] at this
      simpa [Plan.exec, hends] using this
  | branch test body p ihbody ih =>
    intro start hat hlast used
    simp only [Plan.size] at hlast ⊢
    have hbody := ihbody hp.1 hat.tail.left (by omega)
    have hrest := hat.tail.right
    rw [Plan.length_code] at hrest
    have hp' := ih hp.2 hrest (by omega)
    have e : start + 1 + body.size + p.size = start + (body.size + p.size + 1) := by omega
    rw [e] at hp'
    have hfirst := Runs.test (by omega : start < last) hat.head truth used
    -- the test leads to the body or behind it; the steps saved in the second case do no harm
    cases htruth : truth used with
    | true =>
      rw [htruth, if_pos rfl] at hfirst
      have := hfirst.andThen fun used' => (hbody used').andThen hp'
      rw [Nat.add_comm 1] at this
      simpa [Plan.exec, htruth] using this
    | false =>
      rw [htruth, if_neg (by decide)] at hfirst
      have := hfirst.andThen fun used' => ((Runs.refl _ used').weaken body.size).andThen hp'
      rw [Nat.add_comm 1] at this
      simpa [Plan.exec, htruth] using this
  | fork test body other p ihbody ihother ih =>
    intro start hat hlast used
    simp only [Plan.size] at hlast ⊢
    have hbody := ihbody hp.1 hat.tail.left (by omega)
    have hjump := hat.tail.right
    rw [Plan.length_code] at hjump
    have e : start + 1 + body.size + 1 = start + body.size + 2 := by omega
    have hother' := hjump.tail.left
    rw [e] at hother'
    have hother := ihother hp.2.1 hother' (by omega)
    have hrest := hjump.tail.right
    rw [Plan.length_code, e] at hrest
    have hp' := ih hp.2.2 hrest (by omega)
    have e' : start + body.size + 2 + other.size + p.size =
        start + (body.size + other.size + p.size + 2) := by omega
    rw [e'] at hp'
    have hfirst := Runs.test (by omega : start < last) hat.head truth used
    cases htruth : truth used with
    | true =>
      rw [htruth, if_pos rfl] at hfirst
      have hover : ∀ used', Runs code last truth 1 (start + 1 + body.size)
          (start + body.size + 2 + other.size) used' ⟨[], some used'⟩ := by
        intro used'
        exact .step (by omega) hjump.head rfl
      have := hfirst.andThen fun used' => (((hbody used').andThen hover).weaken other.size).andThen hp'
      have hcost : 1 + (other.size + (body.size + 1) + p.size) =
          body.size + other.size + p.size + 2 := by omega
      rw [hcost] at this
      simpa [Plan.exec, htruth, Progress.andThen_pure] using this
    | false =>
      rw [htruth, if_neg (by decide)] at hfirst
      have := hfirst.andThen fun used' => ((hother used').weaken (body.size + 1)).andThen hp'
      have hcost : 1 + (body.size + 1 + other.size + p.size) =
          body.size + other.size + p.size + 2 := by omega
      rw [hcost] at this
      simpa [Plan.exec, htruth] using this

end

/-! ## Running the code of a block -/

theorem Step.Resolved.isPlain {heads : String → Option Nat} {a : Step} (h : a.Resolved heads) :
    (a.instruction heads).IsPlain := by
  intro truth position used
  cases a with
  | enter block => rfl
  | perform i =>
    have hi : i.destinations = [] := h
    cases i <;> first | rfl | simp [Instruction.destinations] at hi

/-- **Branching keeps its meaning.**  The statements of every accepted block have exactly one structured
reading, and a run of the whole code from behind the entry of the block to its end records what the reading
does. -/
theorem run_eq_exec_of_reads (sym : Symbols) {blocks : List Block} {placed : List PlacedBlock}
    {table : BlockTable} {code : List Instruction}
    (hplace : Block.place sym .empty blocks = .ok (placed, table))
    (hemit : PlacedBlock.emit .endless table placed = .ok code)
    {k : Nat} {b : Block} (hb : blocks[k]? = some b) :
    ∃ (p : PlacedBlock) (plan : Plan Instruction),
      placed[k]? = some p ∧ p.name = b.name ∧
      Block.headFrom? 0 blocks b.name = some p.offset ∧
      code[p.offset]? = some (.blockEntry p.offset) ∧
      code[p.offset + b.size - 1]? = some .blockEnd ∧
      (∀ q, Reads sym (Block.headFrom? 0 blocks) b.statements q ↔ q = plan) ∧
      ∀ truth, run code (p.offset + b.size - 1) truth code.length (p.offset + 1) 0 =
        some (plan.exec truth 0).events := by
  obtain ⟨rs, ha⟩ := exists_assembled hplace hemit
  obtain ⟨r, hr, hmeans⟩ := Block.exists_means_of_getElem? ha.means hb
  have hresolved := ha.resolved r (List.mem_of_getElem? hr)
  have hheads := headFrom?_of_means ha.means 0
  obtain ⟨j, hplaced, hhead, hat⟩ := Routine.exists_placed
    (Step.instruction (Routine.headFrom? 0 rs)) id hr ha.nodup 0
  simp only [Nat.zero_add] at hplaced hhead hat
  rw [← ha.code_eq] at hat
  have hsize : b.size = r.plan.size + 2 := hmeans.size_eq
  have hend := hat.tail.right
  rw [Plan.length_code] at hend
  have hlast : j + b.size - 1 = j + 1 + r.plan.size := by omega
  have hreads := hmeans.reads hresolved
  rw [← hheads] at hreads
  refine ⟨⟨r.name, j, r.nodes⟩, _, ha.placed_eq ▸ hplaced, hmeans.1.symm, ?_, ?_, ?_,
    fun q => ⟨fun hq => hq.unique hreads, fun hq => hq ▸ hreads⟩, ?_⟩
  · rw [hheads, hmeans.1, hhead]
  · simpa [Step.instruction, hhead] using hat.head
  · simpa [hlast] using hend.head
  · intro truth
    have hcode : StandsAt ((r.plan.map (Step.instruction (Routine.headFrom? 0 rs))).code id id (j + 1))
        (j + 1) code := by
      rw [Plan.code_map]
      exact hat.tail.left
    have hruns : ∀ used, Runs code _ truth _ _ _ used _ :=
      runs_code _ (hresolved.map fun _ h => h.isPlain) hcode (Nat.le_refl _)
    have hlength := hat.length_le
    rw [Routine.length_code, Routine.size] at hlength
    have := run_mono (hruns 0 1 [] ?_) (code.length - (r.plan.size + 1))
    · rw [hheads]
      simpa [hlast, Nat.sub_add_cancel (by omega : r.plan.size + 1 ≤ code.length)] using this
    · cases h : (Plan.exec truth (r.plan.map (Step.instruction (Routine.headFrom? 0 rs))) 0).used with
      | none => rfl
      | some used => simp [Continues, run]

/-- A branch with a branch in it, and a second part. -/
def gate : Block :=
  ⟨"Gate", [⟨.ifThen, ["@open"], ""⟩, ⟨.ifThen, ["!@tired"], ""⟩, ⟨.yield, [], ""⟩, ⟨.endIf, [], ""⟩,
    ⟨.otherwise, [], ""⟩, ⟨.ret, [], ""⟩, ⟨.endIf, [], ""⟩, ⟨.unbind, [], ""⟩]⟩

/-- The gate, entered from a block before it. -/
def gated : List Block := [⟨"Main", [⟨.entry, ["Gate"], ""⟩, .implied .stop]⟩, gate]

theorem run_gated :
    ∃ placed table code, Block.place .english .empty gated = .ok (placed, table) ∧
      PlacedBlock.emit .endless table placed = .ok code ∧
      ∃ plan, Reads .english (Block.headFrom? 0 gated) gate.statements plan ∧
        ∀ truth, run code 11 truth code.length 5 0 = some (plan.exec truth 0).events := by
  have haccepted : ∃ placed table code, Block.place .english .empty gated = .ok (placed, table) ∧
      PlacedBlock.emit .endless table placed = .ok code := ⟨_, _, _, rfl, rfl⟩
  obtain ⟨placed, table, code, hplace, hemit⟩ := haccepted
  have hgate : gated[1]? = some gate := rfl
  obtain ⟨p, plan, -, -, hhead, -, -, hreads, hrun⟩ := run_eq_exec_of_reads .english hplace hemit hgate
  have hoffset : p.offset = 4 := (Option.some.inj hhead).symm
  rw [hoffset] at hrun
  exact ⟨placed, table, code, hplace, hemit, plan, (hreads plan).2 rfl, hrun⟩

end SceneScript
