import Mathlib.Logic.Relation
import SceneScript.Proofs.Block.Execution
import SceneScript.Proofs.Compile

/-!
# Control flow

The code of a program falls into segments, one for each block.  Tests and jumps lead forward and not out of
their segment, and entries lead to the head of one.  The main segment has a stop before its end, and a run
from its head does not get beyond that stop.

    (compile lang source).result = .ok program →
      Contained program.code (segments of the blocks) ∧
        Closed program.code (segment of the main block)              (contained_of_compile)
-/

namespace SceneScript

/-- The positions of the first and the last instruction of a block. -/
structure Segment where
  head : Nat
  last : Nat

namespace Segment

/-- The position belongs to the segment. -/
def Holds (s : Segment) (position : Nat) : Prop := s.head ≤ position ∧ position ≤ s.last

/-- The segments of blocks one after another. -/
def listFrom : Nat → List Block → List Segment
  | _, [] => []
  | head, b :: bs => ⟨head, head + b.size - 1⟩ :: listFrom (head + b.size) bs

end Segment

/-- The code falls into the segments, and control goes forward inside each of them. -/
structure Contained (code : List Instruction) (segments : List Segment) : Prop where
  covered : ∀ position, position < code.length ↔ ∃ s ∈ segments, s.Holds position
  entry : ∀ s ∈ segments, code[s.head]? = some (.blockEntry s.head)
  ending : ∀ s ∈ segments, code[s.last]? = some .blockEnd
  condition : ∀ s ∈ segments, ∀ position test ifTrue ifFalse, s.Holds position →
    code[position]? = some (.condition test ifTrue ifFalse) →
    ifTrue = position + 1 ∧ position < ifFalse ∧ ifFalse ≤ s.last
  jump : ∀ s ∈ segments, ∀ position destination, s.Holds position →
    code[position]? = some (.jump destination) → position < destination ∧ destination ≤ s.last
  enters : ∀ position head : Nat, code[position]? = some (.blockEntry head) → ∃ s ∈ segments, s.head = head

/-- The segment stops before its end, and no test or jump in it leads to the end. -/
structure Closed (code : List Instruction) (s : Segment) : Prop where
  stops : ∃ position, s.last = position + 1 ∧ code[position]? = some .stop
  condition : ∀ position test ifTrue ifFalse, s.Holds position →
    code[position]? = some (.condition test ifTrue ifFalse) → ifTrue < s.last ∧ ifFalse < s.last
  jump : ∀ position destination, s.Holds position → code[position]? = some (.jump destination) →
    destination < s.last

/-- A run can go on at `next` after the instruction at `position`. -/
def Follows (code : List Instruction) (position next : Nat) : Prop :=
  ∃ i truth used used', code[position]? = some i ∧ (i.step truth position used).2 = some (next, used')

/-! ## Segments -/

/-- How many instructions blocks become. -/
def Block.totalSize : List Block → Nat
  | [] => 0
  | b :: bs => b.size + totalSize bs

theorem Block.two_le_size (b : Block) : 2 ≤ b.size := by
  unfold Block.size
  omega

namespace Segment

theorem exists_holds_iff (blocks : List Block) (head position : Nat) :
    (∃ s ∈ listFrom head blocks, s.Holds position) ↔
      head ≤ position ∧ position < head + Block.totalSize blocks := by
  induction blocks generalizing head with
  | nil => simp [listFrom, Block.totalSize]
  | cons b bs ih =>
    have hsize := b.two_le_size
    rw [listFrom, List.exists_mem_cons_iff, ih]
    simp only [Holds, Block.totalSize]
    omega

theorem exists_head_eq {blocks : List Block} {head h : Nat} {name : String}
    (hh : Block.headFrom? head blocks name = some h) : ∃ s ∈ listFrom head blocks, s.head = h := by
  induction blocks generalizing head with
  | nil => simp [Block.headFrom?] at hh
  | cons b bs ih =>
    rw [listFrom, List.exists_mem_cons_iff]
    rw [Block.headFrom?] at hh
    split at hh
    · exact .inl (Option.some.inj hh)
    · exact .inr (ih hh)

theorem listFrom_of_means {sym : Symbols} {blocks : List Block} {rs : List Routine}
    (h : List.Forall₂ (Block.Means sym) blocks rs) (head : Nat) :
    listFrom head blocks =
      (Routine.placeFrom head rs).map fun p => ⟨p.offset, p.offset + p.size - 1⟩ := by
  induction h generalizing head with
  | nil => rfl
  | cons hb _ ih =>
    rw [listFrom, Routine.placeFrom, List.map_cons, ih, hb.size_eq, Routine.size_placed]

/-- A segment of blocks that mean routines holds the code of one of them. -/
theorem exists_standsAt {β : Type} (step : Step → β) (fixed : Instruction → β) {sym : Symbols}
    {blocks : List Block} {rs : List Routine} (hmeans : List.Forall₂ (Block.Means sym) blocks rs)
    (hnodup : (rs.map Routine.name).Nodup) {s : Segment} (hs : s ∈ listFrom 0 blocks) :
    ∃ r ∈ rs, s.last = s.head + 1 + r.plan.size ∧ Routine.headFrom? 0 rs r.name = some s.head ∧
      StandsAt (r.code step fixed s.head) s.head (Routine.codeFrom step fixed 0 rs) := by
  rw [listFrom_of_means hmeans] at hs
  obtain ⟨p, hp, rfl⟩ := List.mem_map.1 hs
  obtain ⟨k, hk⟩ := List.mem_iff_getElem?.1 hp
  have hlt : k < rs.length := by
    rw [← Routine.length_placeFrom 0 rs]
    exact (List.getElem?_eq_some_iff.1 hk).1
  obtain ⟨j, hplaced, hhead, hat⟩ :=
    Routine.exists_placed step fixed (List.getElem?_eq_getElem hlt) hnodup 0
  rw [Nat.zero_add] at hplaced hhead hat
  obtain rfl := Option.some.inj (hk.symm.trans hplaced)
  refine ⟨rs[k], List.getElem_mem hlt, ?_, hhead, hat⟩
  simp only [Routine.size_placed, Routine.size]
  omega

end Segment

/-! ## Forward control -/

/-- The instruction has no destination, or enters a routine. -/
def Instruction.IsStep (heads : String → Option Nat) (i : Instruction) : Prop :=
  i.destinations = [] ∨ ∃ name head, heads name = some head ∧ i = .blockEntry head

theorem Step.Resolved.isStep {heads : String → Option Nat} {a : Step} (h : a.Resolved heads) :
    (a.instruction heads).IsStep heads := by
  cases a with
  | perform i => exact .inl h
  | enter block =>
    obtain ⟨head, hhead⟩ := h
    exact .inr ⟨block, head, hhead, by rw [instruction, hhead, Option.getD_some]⟩

/-- Inside the code of a plan, control goes forward and not beyond its end. -/
theorem Plan.forward_of_standsAt {heads : String → Option Nat} {p : Plan Step} {start : Nat}
    {code : List Instruction} (hp : p.All (Step.Resolved heads))
    (hat : StandsAt (p.code (Step.instruction heads) id start) start code) {position : Nat}
    (hstart : start ≤ position) (hend : position < start + p.size) {i : Instruction}
    (hi : code[position]? = some i) :
    Forward (Instruction.IsStep heads) id position (start + p.size) i := by
  obtain ⟨j, rfl⟩ := Nat.exists_eq_add_of_le hstart
  rw [hat.get (by rw [length_code]; omega)] at hi
  exact forward_of_mem_code (fun a => Step.Resolved.isStep) hp start _ _
    (List.mk_add_mem_zipIdx_iff_getElem?.2 hi)

theorem Instruction.not_isStep_condition {heads : String → Option Nat} {test : Expr} {ifTrue ifFalse : Nat} :
    ¬(condition test ifTrue ifFalse).IsStep heads := by
  simp [IsStep, destinations]

theorem Instruction.not_isStep_jump {heads : String → Option Nat} {destination : Nat} :
    ¬(jump destination).IsStep heads := by
  simp [IsStep, destinations]

namespace Plan

variable {heads : String → Option Nat} {position last : Nat}

theorem Forward.of_condition {test : Expr} {ifTrue ifFalse : Nat}
    (h : Forward (Instruction.IsStep heads) id position last (.condition test ifTrue ifFalse)) :
    ifTrue = position + 1 ∧ position < ifFalse ∧ ifFalse ≤ last := by
  generalize hi : Instruction.condition test ifTrue ifFalse = i at h
  cases h with
  | step h => exact absurd (hi ▸ h) Instruction.not_isStep_condition
  | condition h h' =>
    cases hi
    exact ⟨rfl, h, h'⟩
  | jump h h' => cases hi

theorem Forward.of_jump {destination : Nat}
    (h : Forward (Instruction.IsStep heads) id position last (.jump destination)) :
    position < destination ∧ destination ≤ last := by
  generalize hi : Instruction.jump destination = i at h
  cases h with
  | step h => exact absurd (hi ▸ h) Instruction.not_isStep_jump
  | condition h h' => cases hi
  | jump h h' =>
    cases hi
    exact ⟨h, h'⟩

theorem Forward.of_blockEntry {head : Nat}
    (h : Forward (Instruction.IsStep heads) id position last (.blockEntry head)) :
    ∃ name, heads name = some head := by
  generalize hi : Instruction.blockEntry head = i at h
  cases h with
  | step h =>
    subst hi
    obtain h | ⟨name, head, hhead, hentry⟩ := h
    · simp [Instruction.destinations] at h
    · cases hentry
      exact ⟨name, hhead⟩
  | condition h h' => cases hi
  | jump h h' => cases hi

end Plan

section

variable {sym : Symbols} {blocks : List Block} {placed : List PlacedBlock} {code : List Instruction}
  {rs : List Routine}

theorem Block.totalSize_of_means (h : List.Forall₂ (Means sym) blocks rs) :
    totalSize blocks = Routine.totalSize rs := by
  induction h with
  | nil => rfl
  | cons hb _ ih => rw [totalSize, Routine.totalSize, hb.size_eq, ih]

theorem Assembled.code_length (ha : Assembled sym blocks placed code rs) :
    code.length = Block.totalSize blocks := by
  rw [ha.code_eq, Routine.length_codeFrom, Block.totalSize_of_means ha.means]

/-- What stands in a segment of accepted blocks. -/
theorem Assembled.segment (ha : Assembled sym blocks placed code rs) {s : Segment}
    (hs : s ∈ Segment.listFrom 0 blocks) :
    code[s.head]? = some (.blockEntry s.head) ∧ code[s.last]? = some .blockEnd ∧
      ∀ position i, s.Holds position → code[position]? = some i →
        Plan.Forward (Instruction.IsStep (Routine.headFrom? 0 rs)) id position s.last i := by
  obtain ⟨r, hr, hlast, hhead, hat⟩ := Segment.exists_standsAt
    (Step.instruction (Routine.headFrom? 0 rs)) id ha.means ha.nodup hs
  rw [← ha.code_eq] at hat
  have hentry : code[s.head]? = some (.blockEntry s.head) := by
    simpa [Step.instruction, hhead] using hat.head
  have hending : code[s.last]? = some .blockEnd := by
    have := hat.tail.right.head
    rwa [Plan.length_code, ← hlast] at this
  refine ⟨hentry, hending, ?_⟩
  rintro position i ⟨hle, hle'⟩ hi
  rcases Nat.eq_or_lt_of_le hle with rfl | hlt
  · cases hentry.symm.trans hi
    exact .step (.inr ⟨r.name, s.head, hhead, rfl⟩)
  · rcases Nat.eq_or_lt_of_le hle' with rfl | hlt'
    · cases hending.symm.trans hi
      exact .step (.inl rfl)
    · have := Plan.forward_of_standsAt (ha.resolved r hr) hat.tail.left hlt (hlast ▸ hlt') hi
      rwa [← hlast] at this

theorem Assembled.contained (ha : Assembled sym blocks placed code rs) :
    Contained code (Segment.listFrom 0 blocks) where
  covered position := by
    rw [Segment.exists_holds_iff, ha.code_length]
    omega
  entry _ hs := (ha.segment hs).1
  ending _ hs := (ha.segment hs).2.1
  condition _ hs position _ _ _ hposition hi := ((ha.segment hs).2.2 position _ hposition hi).of_condition
  jump _ hs position _ hposition hi := ((ha.segment hs).2.2 position _ hposition hi).of_jump
  enters position head hi := by
    have hlt : position < Block.totalSize blocks := by
      rw [← ha.code_length]
      exact (List.getElem?_eq_some_iff.1 hi).1
    obtain ⟨s, hs, hposition⟩ := (Segment.exists_holds_iff blocks 0 position).2 (by omega)
    obtain ⟨name, hhead⟩ := ((ha.segment hs).2.2 position _ hposition hi).of_blockEntry
    rw [← headFrom?_of_means ha.means] at hhead
    exact Segment.exists_head_eq hhead

end

/-- Every destination is a position of the code. -/
theorem Contained.destination_lt {code : List Instruction} {segments : List Segment}
    (h : Contained code segments) {i : Instruction} (hi : i ∈ code) {d : Nat} (hd : d ∈ i.destinations) :
    d < code.length := by
  obtain ⟨position, hi⟩ := List.mem_iff_getElem?.1 hi
  have hlt : position < code.length := (List.getElem?_eq_some_iff.1 hi).1
  obtain ⟨s, hs, hposition⟩ := (h.covered position).1 hlt
  have hlast : s.last < code.length := (List.getElem?_eq_some_iff.1 (h.ending s hs)).1
  cases i with
  | condition test ifTrue ifFalse =>
    have := h.condition s hs position test ifTrue ifFalse hposition hi
    simp only [Instruction.destinations, List.mem_cons, List.not_mem_nil, or_false] at hd
    omega
  | jump destination =>
    have := h.jump s hs position destination hposition hi
    simp only [Instruction.destinations, List.mem_cons, List.not_mem_nil, or_false] at hd
    omega
  | blockEntry head =>
    obtain ⟨s', hs', rfl⟩ := h.enters position head hi
    obtain rfl := List.mem_singleton.1 hd
    exact (List.getElem?_eq_some_iff.1 (h.entry s' hs')).1
  | action | blockEnd | bind | unbind | ret | stop | yield | compute => cases hd

/-! ## Code that ends with a stop -/

namespace Plan

variable {α β : Type}

/-- The plan with a step after everything else, outside all branches. -/
def snoc (a : α) : Plan α → Plan α
  | done => act a done
  | act b rest => act b (rest.snoc a)
  | branch test body rest => branch test body (rest.snoc a)
  | fork test body other rest => fork test body other (rest.snoc a)

theorem code_snoc (step : α → β) (fixed : Instruction → β) (start : Nat) (a : α) (p : Plan α) :
    (p.snoc a).code step fixed start = p.code step fixed start ++ [step a] := by
  induction p generalizing start with
  | done => rfl
  | act b rest ih => simp [snoc, code, ih]
  | branch test body rest _ ihrest => simp [snoc, code, ihrest]
  | fork test body other rest _ _ ihrest => simp [snoc, code, ihrest]

theorem size_snoc (a : α) (p : Plan α) : (p.snoc a).size = p.size + 1 := by
  have hlength := congrArg List.length (code_snoc (fun _ => ()) (fun _ => ()) 0 a p)
  simpa using hlength

theorem All.of_snoc {P : α → Prop} {a : α} {p : Plan α} (h : (p.snoc a).All P) : p.All P := by
  induction p with
  | done => trivial
  | act b rest ih => exact ⟨h.1, ih h.2⟩
  | branch test body rest _ ihrest => exact ⟨h.1, ihrest h.2⟩
  | fork test body other rest _ _ ihrest => exact ⟨h.1, h.2.1, ihrest h.2.2⟩

theorem kinds_eq_nil_iff {p : Plan Step} : p.kinds = [] ↔ p = .done := by
  cases p <;> simp [kinds]

/-- If the last node is a step, no branch is open there: a branch closes with a marker. -/
theorem exists_snoc {p : Plan Step} {i : Instruction} (h : p.kinds.getLast? = some (.plain i)) :
    ∃ q : Plan Step, p = q.snoc (.perform i) := by
  have hrest : ∀ {k : NodeKind} {rest : Plan Step}, (k :: rest.kinds).getLast? = some (.plain i) →
      (rest = .done ∧ k = .plain i) ∨ rest.kinds.getLast? = some (.plain i) := by
    intro k rest h
    rw [List.getLast?_cons] at h
    cases hlast : rest.kinds.getLast? with
    | none =>
      rw [hlast] at h
      exact .inl ⟨kinds_eq_nil_iff.1 (List.getLast?_eq_none_iff.1 hlast), Option.some.inj h⟩
    | some k' =>
      rw [hlast] at h
      exact .inr h
  induction p with
  | done => simp [kinds] at h
  | act s rest ih =>
    obtain ⟨rfl, hs⟩ | h := hrest h
    · cases s with
      | perform i' =>
        cases hs
        exact ⟨.done, rfl⟩
      | enter block => cases hs
    · obtain ⟨q, rfl⟩ := ih h
      exact ⟨.act s q, rfl⟩
  | branch test body rest _ ihrest =>
    rw [kinds, ← List.cons_append, List.getLast?_append_of_ne_nil _ (List.cons_ne_nil _ _)] at h
    obtain ⟨-, h⟩ | h := hrest h
    · cases h
    · obtain ⟨q, rfl⟩ := ihrest h
      exact ⟨.branch test body q, rfl⟩
  | fork test body other rest _ _ ihrest =>
    rw [kinds, ← List.cons_append, List.getLast?_append_of_ne_nil _ (List.cons_ne_nil _ _),
      ← List.cons_append, List.getLast?_append_of_ne_nil _ (List.cons_ne_nil _ _)] at h
    obtain ⟨-, h⟩ | h := hrest h
    · cases h
    · obtain ⟨q, rfl⟩ := ihrest h
      exact ⟨.fork test body other q, rfl⟩

end Plan

section

variable {sym : Symbols} {b : Block} {blocks : List Block} {placed : List PlacedBlock}
  {code : List Instruction} {r : Routine} {rs : List Routine}

/-- A block whose last statement stops means a plan that ends with a stop. -/
theorem Block.Means.exists_snoc (h : b.Means sym r)
    (hlast : b.statements.getLast?.map Statement.keyword = some .stop) :
    ∃ q : Plan Step, r.plan = q.snoc (.perform .stop) := by
  obtain ⟨s, hs, hkeyword⟩ := Option.map_eq_some_iff.1 hlast
  have hnode : s.node sym = .ok (.plain .stop) := by rw [Statement.node, hkeyword]
  have hnodes := congrArg List.getLast? ((collect_eq_ok_iff _ _ _).1 h.2.1)
  rw [List.getLast?_map, List.getLast?_map, hs, Option.map_some, hnode] at hnodes
  obtain ⟨k, hk, hstop⟩ := Option.map_eq_some_iff.1 hnodes.symm
  cases hstop
  exact Plan.exists_snoc hk

/-- In the first block, if its last statement stops, nothing leads beyond that stop. -/
theorem Assembled.forward_stop (ha : Assembled sym (b :: blocks) placed code rs)
    (hlast : b.statements.getLast?.map Statement.keyword = some .stop) :
    ∃ stop, b.size - 1 = stop + 1 ∧ code[stop]? = some .stop ∧
      ∀ position i, Segment.Holds ⟨0, b.size - 1⟩ position → code[position]? = some i →
        Plan.Forward (Instruction.IsStep (Routine.headFrom? 0 rs)) id position stop i := by
  obtain ⟨r, rs, hb, -, rfl⟩ := List.forall₂_cons_left_iff.1 ha.means
  obtain ⟨q, hq⟩ := hb.exists_snoc hlast
  have hresolved := ha.resolved r List.mem_cons_self
  have hhead : Routine.headFrom? 0 (r :: rs) r.name = some 0 := by simp [Routine.headFrom?]
  have hsize : b.size - 1 = 1 + q.size + 1 := by
    rw [hb.size_eq, Routine.size, hq, Plan.size_snoc]
    omega
  have hat : StandsAt (r.code (Step.instruction (Routine.headFrom? 0 (r :: rs))) id 0) 0 code := by
    rw [ha.code_eq]
    exact (StandsAt.refl _).left
  rw [Routine.code, hq, Plan.code_snoc] at hat
  rw [hq] at hresolved
  have hentry := hat.head
  have hbody := hat.tail.left
  have hstop : code[1 + q.size]? = some .stop := by simpa [Step.instruction] using hbody.right.head
  have hending : code[1 + q.size + 1]? = some .blockEnd := by
    simpa [Nat.add_assoc] using hat.tail.right.head
  refine ⟨1 + q.size, hsize, hstop, ?_⟩
  rintro position i ⟨-, hle⟩ hi
  simp only [hsize] at hle
  -- the entry, the statements before the stop, the stop, the end
  rcases Nat.eq_zero_or_pos position with rfl | hpos
  · cases hentry.symm.trans hi
    exact .step (.inr ⟨r.name, 0, hhead, by simp [Step.instruction, hhead]⟩)
  · obtain hlt | rfl | rfl : position < 1 + q.size ∨ position = 1 + q.size ∨
        position = 1 + q.size + 1 := by omega
    · exact Plan.forward_of_standsAt hresolved.of_snoc hbody.left hpos hlt hi
    · cases hstop.symm.trans hi
      exact .step (.inl rfl)
    · cases hending.symm.trans hi
      exact .step (.inl rfl)

/-- The first of the accepted blocks is closed if its last statement stops. -/
theorem Assembled.closed (ha : Assembled sym (b :: blocks) placed code rs)
    (hlast : b.statements.getLast?.map Statement.keyword = some .stop) :
    Closed code ⟨0, b.size - 1⟩ := by
  obtain ⟨stop, hsize, hstop, hforward⟩ := ha.forward_stop hlast
  refine ⟨⟨stop, hsize, hstop⟩, ?_, ?_⟩
  · intro position test ifTrue ifFalse hposition hi
    have := (hforward position _ hposition hi).of_condition
    simp only [hsize]
    omega
  · intro position destination hposition hi
    have := (hforward position _ hposition hi).of_jump
    simp only [hsize]
    omega

end

/-! ## Runs -/

/-- Where a run goes on. -/
theorem Instruction.step_cases {i : Instruction} {truth : Nat → Bool} {position used next used' : Nat}
    (h : (i.step truth position used).2 = some (next, used')) :
    (∃ test ifTrue ifFalse, i = condition test ifTrue ifFalse ∧ (next = ifTrue ∨ next = ifFalse)) ∨
      i = jump next ∨ (next = position + 1 ∧ i ≠ stop) := by
  cases i with
  | condition test ifTrue ifFalse =>
    left
    refine ⟨test, ifTrue, ifFalse, rfl, ?_⟩
    cases hused : truth used <;> simp_all [step]
  | jump destination =>
    right
    left
    simp_all [step]
  | ret | stop => simp [step, ends] at h
  | action | blockEntry | blockEnd | bind | unbind | yield | compute =>
    right
    right
    simp_all [step, ends]

section

variable {code : List Instruction} {segments : List Segment} {s : Segment}

/-- A step of a run in a closed segment goes forward, and not to the end of the segment. -/
theorem Closed.step (h : Closed code s) (hcontained : Contained code segments) (hs : s ∈ segments)
    {position next : Nat} (hposition : s.head ≤ position ∧ position < s.last)
    (hnext : Follows code position next) : position < next ∧ next < s.last := by
  obtain ⟨i, truth, used, used', hi, hstep⟩ := hnext
  have hholds : s.Holds position := ⟨hposition.1, Nat.le_of_lt hposition.2⟩
  obtain ⟨test, ifTrue, ifFalse, rfl, hnext⟩ | rfl | ⟨rfl, hne⟩ := Instruction.step_cases hstep
  · have hforward := hcontained.condition s hs position test ifTrue ifFalse hholds hi
    have hlast := h.condition position test ifTrue ifFalse hholds hi
    omega
  · exact ⟨(hcontained.jump s hs position next hholds hi).1, h.jump position next hholds hi⟩
  · -- only the stop stands right before the end, and no run goes on after it
    obtain ⟨last, hlast, hstop⟩ := h.stops
    have : position ≠ last := by
      rintro rfl
      exact hne (Option.some.inj (hi.symm.trans hstop))
    omega

/-- A run from the head of a closed segment stays in it and does not reach its end. -/
theorem Closed.reach (h : Closed code s) (hcontained : Contained code segments) (hs : s ∈ segments)
    (hlt : s.head < s.last) {position : Nat} (hreach : Relation.ReflTransGen (Follows code) s.head position) :
    s.head ≤ position ∧ position < s.last := by
  induction hreach with
  | refl => exact ⟨Nat.le_refl _, hlt⟩
  | tail _ hnext ih =>
    have hstep := h.step hcontained hs ih hnext
    omega

end

/-! ## Compiled scripts -/

/-- **Control goes forward and stays inside its block.**  The code of a program falls into one segment for each
block, the main one first; every destination lies in the code, and a run of the main block never reaches its
end. -/
theorem contained_of_compile {lang : Language} {source : String} {program : Program}
    (h : (compile lang source).result = .ok program) :
    ∃ o blocks main,
      Outline.ofLines lang.symbols (Line.normalize lang.symbols.comment source) = .ok o ∧
      scriptBlocks lang (Directive.separate lang.symbols o.rest).2 o.sections = .ok blocks ∧
      blocks.map Block.name = mainName :: o.sections.map Section.name ∧
      Contained program.code (Segment.listFrom 0 blocks) ∧
      (∀ i ∈ program.code, ∀ d ∈ i.destinations, d < program.code.length) ∧
      (Segment.listFrom 0 blocks).head? = some main ∧
      Closed program.code main ∧
      ∀ position, Relation.ReflTransGen (Follows program.code) main.head position → position < main.last := by
  obtain ⟨o, ho, hcompile⟩ := compile_eq_ok_iff.1 h
  obtain ⟨blocks, before, hblocks, hbefore, happly⟩ := Outline.compile_eq_ok_iff.1 hcompile
  obtain ⟨placed, table, code, hplace, hemit, rfl⟩ := Program.ofBlocks_eq_ok_iff.1 hbefore
  obtain ⟨b, rest, rfl, hlast, hname, hnames⟩ := scriptBlocks_cases hblocks
  have hcode : program.code = code := by
    have := Directive.code_applyAll lang (Directive.separate lang.symbols o.rest).1 (Program.ofCode code)
    rw [happly] at this
    exact this
  obtain ⟨rs, ha⟩ := exists_assembled hplace hemit
  have hcontained := ha.contained
  have hclosed := ha.closed hlast
  have hsize := b.two_le_size
  rw [← hcode] at hcontained hclosed
  have hmem : (⟨0, b.size - 1⟩ : Segment) ∈ Segment.listFrom 0 (b :: rest) := by simp [Segment.listFrom]
  refine ⟨o, b :: rest, ⟨0, b.size - 1⟩, ho, hblocks, ?_, hcontained, ?_, ?_, hclosed, ?_⟩
  · rw [List.map_cons, hname, hnames]
  · exact fun i hi d hd => hcontained.destination_lt hi hd
  · simp [Segment.listFrom]
  · exact fun position hreach => (hclosed.reach hcontained hmem (by simp only; omega) hreach).2

/-- A branch at the end of the main block, around an entry. -/
def detour : String := ":if @late\n:entry Lane\n:else\n:yield\n:end\nLane:\n:if @dark\n:return\n:end\nend Lane"

theorem contained_detour :
    ∃ program blocks main, (compile .english detour).result = .ok program ∧
      Contained program.code (Segment.listFrom 0 blocks) ∧
      (Segment.listFrom 0 blocks).head? = some main ∧ Closed program.code main := by
  have hok : (compile .english detour).result.isOk = true := by decide +kernel
  obtain ⟨program, hprogram⟩ : ∃ program, (compile .english detour).result = .ok program := by
    cases hresult : (compile .english detour).result with
    | error fault =>
      rw [hresult] at hok
      cases hok
    | ok program => exact ⟨program, rfl⟩
  obtain ⟨-, blocks, main, -, -, -, hcontained, -, hmain, hclosed, -⟩ := contained_of_compile hprogram
  exact ⟨program, blocks, main, hprogram, hcontained, hmain, hclosed⟩

end SceneScript
