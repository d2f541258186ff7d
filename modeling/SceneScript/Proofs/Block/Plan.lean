import SceneScript.Block.Code
import SceneScript.Proofs.Block.Nesting
import SceneScript.Proofs.Collect
import SceneScript.Proofs.Excerpt

/-!
# Plans

A plan is the structured form of the statements of a block: steps and branches, each branch with its
body and what follows it.  `Plan.kinds` writes a plan as a flat list of nodes, `Plan.nodes` as the same nodes
numbered and linked, and `Plan.code` as instructions with destinations.

    Linked position (number index kinds) ms → kinds = plan.kinds ∧ ms = plan.nodes position index
                                                                     (exists_plan_of_linked)
    lowering the nodes of a plan gives its code                      (lower_nodes)
-/

namespace SceneScript

/-- What a statement outside the nesting of branches does. -/
inductive Step where
  | perform (i : Instruction)
  /-- Enters the block of that name. -/
  | enter (block : String)

/-- Structured statements, with steps of type `α`. -/
inductive Plan (α : Type) where
  | done
  | act (a : α) (rest : Plan α)
  | branch (test : Expr) (body rest : Plan α)
  | fork (test : Expr) (body other rest : Plan α)

namespace Plan

variable {α β : Type}

/-- How many instructions a plan becomes. -/
def size : Plan α → Nat
  | done => 0
  | act _ rest => rest.size + 1
  | branch _ body rest => body.size + rest.size + 1
  | fork _ body other rest => body.size + other.size + rest.size + 2

/-- The code of a plan from the position `start` on.  A test that holds goes on with the next instruction; one
that fails goes on after the body, behind the jump over the second part if there is one. -/
def code (step : α → β) (fixed : Instruction → β) : Nat → Plan α → List β
  | _, done => []
  | start, act a rest => step a :: rest.code step fixed (start + 1)
  | start, branch test body rest =>
    fixed (.condition test (start + 1) (start + 1 + body.size)) ::
      (body.code step fixed (start + 1) ++ rest.code step fixed (start + 1 + body.size))
  | start, fork test body other rest =>
    fixed (.condition test (start + 1) (start + body.size + 2)) ::
      (body.code step fixed (start + 1) ++
        fixed (.jump (start + body.size + 2 + other.size)) ::
          (other.code step fixed (start + body.size + 2) ++
            rest.code step fixed (start + body.size + 2 + other.size)))

/-- The plan with every step replaced. -/
def map (f : α → β) : Plan α → Plan β
  | done => done
  | act a rest => act (f a) (rest.map f)
  | branch test body rest => branch test (body.map f) (rest.map f)
  | fork test body other rest => fork test (body.map f) (other.map f) (rest.map f)

/-- Whether all steps of a plan satisfy `p`. -/
def All (p : α → Prop) : Plan α → Prop
  | done => True
  | act a rest => p a ∧ rest.All p
  | branch _ body rest => body.All p ∧ rest.All p
  | fork _ body other rest => body.All p ∧ other.All p ∧ rest.All p

@[simp] theorem size_map (f : α → β) (p : Plan α) : (p.map f).size = p.size := by
  induction p with
  | done => rfl
  | act a rest ih => simp [map, size, ih]
  | branch test body rest ihbody ihrest => simp [map, size, ihbody, ihrest]
  | fork test body other rest ihbody ihother ihrest => simp [map, size, ihbody, ihother, ihrest]

theorem code_map {γ : Type} (f : α → β) (step : β → γ) (fixed : Instruction → γ) (start : Nat)
    (p : Plan α) : (p.map f).code step fixed start = p.code (step ∘ f) fixed start := by
  induction p generalizing start with
  | done => rfl
  | act a rest ih => simp [map, code, ih]
  | branch test body rest ihbody ihrest => simp [map, code, ihbody, ihrest]
  | fork test body other rest ihbody ihother ihrest => simp [map, code, ihbody, ihother, ihrest]

theorem All.map {p : α → Prop} {q : β → Prop} {f : α → β} (h : ∀ a, p a → q (f a)) {plan : Plan α}
    (hp : plan.All p) : (plan.map f).All q := by
  induction plan with
  | done => trivial
  | act a rest ih => exact ⟨h a hp.1, ih hp.2⟩
  | branch test body rest ihbody ihrest => exact ⟨ihbody hp.1, ihrest hp.2⟩
  | fork test body other rest ihbody ihother ihrest =>
    exact ⟨ihbody hp.1, ihother hp.2.1, ihrest hp.2.2⟩

@[simp] theorem length_code (step : α → β) (fixed : Instruction → β) (start : Nat) (p : Plan α) :
    (p.code step fixed start).length = p.size := by
  induction p generalizing start with
  | done => rfl
  | act a rest ih => simp [code, size, ih]
  | branch test body rest ihbody ihrest =>
    simp only [code, size, List.length_cons, List.length_append, ihbody, ihrest]
  | fork test body other rest ihbody ihother ihrest =>
    simp only [code, size, List.length_cons, List.length_append, ihbody, ihother, ihrest]
    omega

theorem All.imp {p q : α → Prop} (h : ∀ a, p a → q a) {plan : Plan α} (hp : plan.All p) :
    plan.All q := by
  induction plan with
  | done => trivial
  | act a rest ih => exact ⟨h a hp.1, ih hp.2⟩
  | branch test body rest ihbody ihrest => exact ⟨ihbody hp.1, ihrest hp.2⟩
  | fork test body other rest ihbody ihother ihrest =>
    exact ⟨ihbody hp.1, ihother hp.2.1, ihrest hp.2.2⟩

theorem All.and {p q : α → Prop} {plan : Plan α} (hp : plan.All p) (hq : plan.All q) :
    plan.All fun a => p a ∧ q a := by
  induction plan with
  | done => trivial
  | act a rest ih => exact ⟨⟨hp.1, hq.1⟩, ih hp.2 hq.2⟩
  | branch test body rest ihbody ihrest => exact ⟨ihbody hp.1 hq.1, ihrest hp.2 hq.2⟩
  | fork test body other rest ihbody ihother ihrest =>
    exact ⟨ihbody hp.1 hq.1, ihother hp.2.1 hq.2.1, ihrest hp.2.2 hq.2.2⟩

theorem code_congr {step step' : α → β} {fixed : Instruction → β} {p : Plan α}
    (h : p.All fun a => step a = step' a) (start : Nat) :
    p.code step fixed start = p.code step' fixed start := by
  induction p generalizing start with
  | done => rfl
  | act a rest ih =>
    have ha : step a = step' a := h.1
    simp [code, ha, ih h.2]
  | branch test body rest ihbody ihrest => simp [code, ihbody h.1, ihrest h.2]
  | fork test body other rest ihbody ihother ihrest =>
    simp [code, ihbody h.1, ihother h.2.1, ihrest h.2.2]

/-- What holds of all the code holds of all steps. -/
theorem all_of_code {step : α → β} {fixed : Instruction → β} {Q : β → Prop} {p : Plan α} (start : Nat)
    (h : ∀ x ∈ p.code step fixed start, Q x) : p.All fun a => Q (step a) := by
  induction p generalizing start with
  | done => trivial
  | act a rest ih =>
    exact ⟨h _ (by simp [code]), ih (start + 1) fun x hx => h x (by simp [code, hx])⟩
  | branch test body rest ihbody ihrest =>
    exact ⟨ihbody (start + 1) fun x hx => h x (by simp [code, hx]),
      ihrest (start + 1 + body.size) fun x hx => h x (by simp [code, hx])⟩
  | fork test body other rest ihbody ihother ihrest =>
    exact ⟨ihbody (start + 1) fun x hx => h x (by simp [code, hx]),
      ihother (start + body.size + 2) fun x hx => h x (by simp [code, hx]),
      ihrest (start + body.size + 2 + other.size) fun x hx => h x (by simp [code, hx])⟩

/-- Control goes forward and not beyond `last`: what stands at `place` is a step, a test that goes on with the
next instruction if it holds, or a jump. -/
inductive Forward (Step : β → Prop) (fixed : Instruction → β) (place last : Nat) : β → Prop
  | step {x : β} : Step x → Forward Step fixed place last x
  | condition {test : Expr} {ifFalse : Nat} : place < ifFalse → ifFalse ≤ last →
      Forward Step fixed place last (fixed (.condition test (place + 1) ifFalse))
  | jump {destination : Nat} : place < destination → destination ≤ last →
      Forward Step fixed place last (fixed (.jump destination))

theorem Forward.mono {Step : β → Prop} {fixed : Instruction → β} {place last last' : Nat} {x : β}
    (h : Forward Step fixed place last x) (hle : last ≤ last') : Forward Step fixed place last' x := by
  cases h with
  | step h => exact .step h
  | condition h h' => exact .condition h (Nat.le_trans h' hle)
  | jump h h' => exact .jump h (Nat.le_trans h' hle)

theorem forward_of_mem_code {step : α → β} {fixed : Instruction → β} {P : α → Prop} {Q : β → Prop}
    (hstep : ∀ a, P a → Q (step a)) {p : Plan α} (hp : p.All P) (start place : Nat) (x : β)
    (hx : (x, place) ∈ (p.code step fixed start).zipIdx start) :
    Forward Q fixed place (start + p.size) x := by
  induction p generalizing start with
  | done => simp [code] at hx
  | act a rest ih =>
    rw [code, List.zipIdx_cons, List.mem_cons] at hx
    rcases hx with hx | hx
    · obtain ⟨rfl, rfl⟩ := Prod.mk.inj hx
      exact .step (hstep a hp.1)
    · exact (ih hp.2 (start + 1) hx).mono (by simp only [size]; omega)
  | branch test body rest ihbody ihrest =>
    rw [code, List.zipIdx_cons, List.mem_cons, List.zipIdx_append, List.mem_append, length_code] at hx
    rcases hx with hx | hx | hx
    · obtain ⟨rfl, rfl⟩ := Prod.mk.inj hx
      exact .condition (by omega) (by simp only [size]; omega)
    · exact (ihbody hp.1 (start + 1) hx).mono (by simp only [size]; omega)
    · exact (ihrest hp.2 (start + 1 + body.size) hx).mono (by simp only [size]; omega)
  | fork test body other rest ihbody ihother ihrest =>
    have e : start + 1 + body.size + 1 = start + body.size + 2 := by omega
    rw [code, List.zipIdx_cons, List.mem_cons, List.zipIdx_append, List.mem_append, length_code,
      List.zipIdx_cons, List.mem_cons, List.zipIdx_append, List.mem_append, length_code, e] at hx
    rcases hx with hx | hx | hx | hx | hx
    · obtain ⟨rfl, rfl⟩ := Prod.mk.inj hx
      exact .condition (by omega) (by simp only [size]; omega)
    · exact (ihbody hp.1 (start + 1) hx).mono (by simp only [size]; omega)
    · obtain ⟨rfl, rfl⟩ := Prod.mk.inj hx
      exact .jump (by omega) (by simp only [size]; omega)
    · exact (ihother hp.2.1 (start + body.size + 2) hx).mono (by simp only [size]; omega)
    · exact (ihrest hp.2.2 (start + body.size + 2 + other.size) hx).mono (by simp only [size]; omega)

theorem map_code {γ : Type} (g : β → γ) (step : α → β) (fixed : Instruction → β) (start : Nat)
    (p : Plan α) :
    (p.code step fixed start).map g = p.code (g ∘ step) (g ∘ fixed) start := by
  induction p generalizing start with
  | done => rfl
  | act a rest ih => simp [code, ih]
  | branch test body rest ihbody ihrest => simp [code, ihbody, ihrest]
  | fork test body other rest ihbody ihother ihrest => simp [code, ihbody, ihother, ihrest]

end Plan

/-! ## The nodes of a plan -/

def Step.kind : Step → NodeKind
  | perform i => .plain i
  | enter block => .entry block

@[simp] theorem Step.isStep_kind (s : Step) : s.kind.isStep = true := by
  cases s <;> rfl

namespace Plan

/-- The kinds of the nodes of a plan, before they are linked. -/
def kinds : Plan Step → List NodeKind
  | done => []
  | act s rest => s.kind :: rest.kinds
  | branch test body rest => .branch test none none :: (body.kinds ++ .endIf :: rest.kinds)
  | fork test body other rest =>
    .branch test none none ::
      (body.kinds ++ .otherwise none :: (other.kinds ++ .endIf :: rest.kinds))

/-- How many nodes a plan becomes, markers included. -/
def width : Plan Step → Nat
  | done => 0
  | act _ rest => rest.width + 1
  | branch _ body rest => body.width + rest.width + 2
  | fork _ body other rest => body.width + other.width + rest.width + 3

/-- The nodes of a plan, numbered from `index` on and linked, when the first stands at `position`. -/
def nodes : Nat → Nat → Plan Step → List Node
  | _, _, done => []
  | position, index, act s rest => ⟨index, s.kind⟩ :: rest.nodes (position + 1) (index + 1)
  | position, index, branch test body rest =>
    ⟨index, .branch test none (some (position + body.width + 1))⟩ ::
      (body.nodes (position + 1) (index + 1) ++
        ⟨index + 1 + body.size, .endIf⟩ ::
          rest.nodes (position + body.width + 2) (index + 1 + body.size))
  | position, index, fork test body other rest =>
    ⟨index, .branch test (some (position + body.width + 1))
        (some (position + body.width + other.width + 2))⟩ ::
      (body.nodes (position + 1) (index + 1) ++
        ⟨index + 1 + body.size, .otherwise (some (position + body.width + other.width + 2))⟩ ::
          (other.nodes (position + body.width + 2) (index + body.size + 2) ++
            ⟨index + body.size + 2 + other.size, .endIf⟩ ::
              rest.nodes (position + body.width + other.width + 3)
                (index + body.size + 2 + other.size)))

@[simp] theorem length_kinds (p : Plan Step) : p.kinds.length = p.width := by
  induction p with
  | done => rfl
  | act s rest ih => simp [kinds, width, ih]
  | branch test body rest ihbody ihrest =>
    simp only [kinds, width, List.length_cons, List.length_append, ihbody, ihrest]
    omega
  | fork test body other rest ihbody ihother ihrest =>
    simp only [kinds, width, List.length_cons, List.length_append, ihbody, ihother, ihrest]
    omega

@[simp] theorem length_nodes (position index : Nat) (p : Plan Step) :
    (p.nodes position index).length = p.width := by
  induction p generalizing position index with
  | done => rfl
  | act s rest ih => simp [nodes, width, ih]
  | branch test body rest ihbody ihrest =>
    simp only [nodes, width, List.length_cons, List.length_append, ihbody, ihrest]
    omega
  | fork test body other rest ihbody ihother ihrest =>
    simp only [nodes, width, List.length_cons, List.length_append, ihbody, ihother, ihrest]
    omega

end Plan

/-! ## From nodes to plans -/

/-- What the nodes of statements look like before they are linked. -/
def NodeKind.IsFresh : NodeKind → Prop
  | .plain i => i.destinations = []
  | .branch _ elseAt endAt => elseAt = none ∧ endAt = none
  | .otherwise endAt => endAt = none
  | .endIf | .entry _ => True
  | .skip _ => False

/-- A step that goes on with the next instruction, if with any. -/
def Step.IsLocal : Step → Prop
  | perform i => i.destinations = []
  | enter _ => True

namespace Block

@[simp] theorem map_kind_number (index : Nat) (ns : List Node) :
    (number index ns).map Node.kind = ns.map Node.kind := by
  induction ns generalizing index with
  | nil => rfl
  | cons n ns ih => simp [number, ih]

@[simp] theorem length_number (index : Nat) (ns : List Node) :
    (number index ns).length = ns.length := by
  induction ns generalizing index with
  | nil => rfl
  | cons n ns ih => simp [number, ih]

/-- Well-nested nodes of statements are those of a plan. -/
theorem exists_plan_of_linked {position : Nat} {ns ms : List Node} (h : Linked position ns ms) :
    (∀ n ∈ ns, n.kind.IsFresh) → ∃ p : Plan Step, ns.map Node.kind = p.kinds ∧ p.All Step.IsLocal := by
  induction h with
  | nil =>
    intro _
    exact ⟨.done, rfl, trivial⟩
  | @step _ n _ _ hn _ ih =>
    intro hfresh
    obtain ⟨p, hp, hlocal⟩ := ih fun m hm => hfresh m (List.mem_cons_of_mem _ hm)
    have hfirst := hfresh n List.mem_cons_self
    obtain ⟨index, kind⟩ := n
    cases kind with
    | plain i => exact ⟨.act (.perform i) p, by simp [hp, Plan.kinds, Step.kind], hfirst, hlocal⟩
    | entry name => exact ⟨.act (.enter name) p, by simp [hp, Plan.kinds, Step.kind], trivial, hlocal⟩
    | skip name => exact absurd hfirst (by simp [NodeKind.IsFresh])
    | branch test elseAt endAt => simp [NodeKind.isStep] at hn
    | otherwise endAt => simp [NodeKind.isStep] at hn
    | endIf => simp [NodeKind.isStep] at hn
  | @branch _ index _ test elseAt endAt _ _ _ _ _ _ ihbody ihrest =>
    intro hfresh
    obtain ⟨p, hp, hlocal⟩ := ihbody fun m hm => hfresh m (by simp [hm])
    obtain ⟨q, hq, hlocal'⟩ := ihrest fun m hm => hfresh m (by simp [hm])
    obtain ⟨rfl, rfl⟩ : elseAt = none ∧ endAt = none :=
      hfresh ⟨index, .branch test elseAt endAt⟩ List.mem_cons_self
    exact ⟨.branch test p q, by simp [hp, hq, Plan.kinds], hlocal, hlocal'⟩
  | @fork _ index middle _ test elseAt endAt endAt' _ _ _ _ _ _ _ _ _ ihbody ihother ihrest =>
    intro hfresh
    obtain ⟨p, hp, hlocal⟩ := ihbody fun m hm => hfresh m (by simp [hm])
    obtain ⟨q, hq, hlocal'⟩ := ihother fun m hm => hfresh m (by simp [hm])
    obtain ⟨r, hr, hlocal''⟩ := ihrest fun m hm => hfresh m (by simp [hm])
    obtain ⟨rfl, rfl⟩ : elseAt = none ∧ endAt = none :=
      hfresh ⟨index, .branch test elseAt endAt⟩ List.mem_cons_self
    obtain rfl : endAt' = none := hfresh ⟨middle, .otherwise endAt'⟩ (by simp)
    exact ⟨.fork test p q r, by simp [hp, hq, hr, Plan.kinds], hlocal, hlocal', hlocal''⟩

/-- How many of the nodes become instructions. -/
def unmarked (ns : List Node) : Nat := (ns.filter (!·.isMarker)).length

@[simp] theorem isMarker_branch (index : Nat) (test : Expr) (elseAt endAt : Option Nat) :
    (⟨index, .branch test elseAt endAt⟩ : Node).isMarker = false := rfl

@[simp] theorem isMarker_otherwise (index : Nat) (endAt : Option Nat) :
    (⟨index, .otherwise endAt⟩ : Node).isMarker = false := rfl

@[simp] theorem isMarker_endIf (index : Nat) : (⟨index, .endIf⟩ : Node).isMarker = true := rfl

@[simp] theorem isMarker_step (index : Nat) (s : Step) :
    (⟨index, s.kind⟩ : Node).isMarker = false := by
  cases s <;> rfl

theorem unmarked_append (ns ms : List Node) : unmarked (ns ++ ms) = unmarked ns + unmarked ms := by
  simp [unmarked]

theorem unmarked_cons (n : Node) (ns : List Node) :
    unmarked (n :: ns) = (if n.isMarker then 0 else 1) + unmarked ns := by
  unfold unmarked
  by_cases hn : n.isMarker = true
  · simp [hn]
  · simp [hn, Nat.add_comm]

theorem number_append (index : Nat) (ns ms : List Node) :
    number index (ns ++ ms) = number index ns ++ number (index + unmarked ns) ms := by
  induction ns generalizing index with
  | nil => rfl
  | cons n ns ih =>
    rw [List.cons_append, number, number, ih, unmarked_cons]
    split <;> simp [Nat.add_assoc]

end Block

namespace Plan

open Block

theorem unmarked_kinds (p : Plan Step) : unmarked (p.kinds.map (Node.mk 0)) = p.size := by
  induction p with
  | done => rfl
  | act s rest ih => simp [kinds, size, unmarked_cons, ih, Nat.add_comm]
  | branch test body rest ihbody ihrest =>
    simp [kinds, size, unmarked_cons, unmarked_append, ihbody, ihrest]
    omega
  | fork test body other rest ihbody ihother ihrest =>
    simp [kinds, size, unmarked_cons, unmarked_append, ihbody, ihother, ihrest]
    omega

theorem unmarked_nodes (p : Plan Step) (position index : Nat) :
    unmarked (p.nodes position index) = p.size := by
  induction p generalizing position index with
  | done => rfl
  | act s rest ih => simp [nodes, size, unmarked_cons, ih, Nat.add_comm]
  | branch test body rest ihbody ihrest =>
    simp [nodes, size, unmarked_cons, unmarked_append, ihbody, ihrest]
    omega
  | fork test body other rest ihbody ihother ihrest =>
    simp [nodes, size, unmarked_cons, unmarked_append, ihbody, ihother, ihrest]
    omega

/-- Numbering and linking the nodes of a plan gives `Plan.nodes`. -/
theorem linked_nodes (p : Plan Step) (position index : Nat) :
    Linked position (number index (p.kinds.map (Node.mk 0))) (p.nodes position index) := by
  have hlen : ∀ (p : Plan Step) (index : Nat),
      (number index (p.kinds.map (Node.mk 0))).length = p.width := by
    intro p index
    simp
  induction p generalizing position index with
  | done => exact .nil
  | act s rest ih =>
    simp only [kinds, List.map_cons, number, nodes, isMarker_step]
    exact .step s.isStep_kind (ih _ _)
  | branch test body rest ihbody ihrest =>
    simp only [kinds, List.map_cons, List.map_append, number, number_append, nodes, isMarker_branch,
      isMarker_endIf, unmarked_kinds]
    rw [← hlen body (index + 1)]
    exact .branch (ihbody _ _) (ihrest _ _)
  | fork test body other rest ihbody ihother ihrest =>
    simp only [kinds, List.map_cons, List.map_append, number, number_append, nodes, isMarker_branch,
      isMarker_otherwise, isMarker_endIf, unmarked_kinds]
    have e : index + 1 + body.size + 1 = index + body.size + 2 := by omega
    rw [← hlen body (index + 1), ← hlen other (index + body.size + 2)]
    simp only [Bool.false_eq_true, if_false, if_true, e]
    exact .fork (ihbody _ _) (ihother _ _) (ihrest _ _)

end Plan

/-! ## Lowering -/

/-- The instruction of a step, once the places of the blocks are known. -/
def Step.lower (table : BlockTable) : Step → Except Fault Instruction
  | perform i => .ok i
  | enter block => (table.get block).map fun info => .blockEntry info.offset

theorem Step.lower_node (counting : Counting) (siblings : List Node) (offset : Nat) (block : String)
    (table : BlockTable) (index : Nat) (s : Step) :
    Node.lower counting siblings offset block table ⟨index, s.kind⟩ = s.lower table := by
  cases s <;> rfl

theorem StandsAt.linkedIndex_eq {n : Node} {ns siblings : List Node} {position : Nat}
    (h : StandsAt (n :: ns) position siblings) (fault : Fault) :
    linkedIndex siblings fault position = .ok n.index := by
  unfold linkedIndex
  rw [h.head]

open Block in
/-- Lowering the nodes of a plan, among their siblings, gives its code. -/
theorem Plan.lower_nodes (offset : Nat) (block : String) (table : BlockTable) (siblings : List Node)
    (p : Plan Step) :
    ∀ (position index : Nat), StandsAt (p.nodes position index) position siblings →
      ((p.nodes position index).filter (!·.isMarker)).map
          (Node.lower .endless siblings offset block table) =
        p.code (Step.lower table) .ok (offset + index) := by
  induction p with
  | done =>
    intro position index _
    rfl
  | act s rest ih =>
    intro position index h
    have hrest := ih (position + 1) (index + 1) h.tail
    simp only [nodes, code, List.filter_cons, isMarker_step, Bool.not_false, if_true, List.map_cons,
      Step.lower_node, hrest, Nat.add_assoc]
  | branch test body rest ihbody ihrest =>
    intro position index h
    have hbody := ihbody _ _ h.tail.left
    have hend := h.tail.right
    rw [length_nodes] at hend
    have e : position + 1 + body.width = position + body.width + 1 := by omega
    rw [e] at hend
    have hrest := ihrest _ _ hend.tail
    have hcond : Node.lower .endless siblings offset block table
        ⟨index, .branch test none (some (position + body.width + 1))⟩ =
        .ok (.condition test (offset + index + 1) (offset + index + 1 + body.size)) := by
      simp only [Node.lower, failIndex, hend.linkedIndex_eq, Except.map, Counting.place]
      rw [← Nat.add_assoc, ← Nat.add_assoc]
    simp only [nodes, code, List.filter_cons, List.filter_append, isMarker_branch, isMarker_endIf,
      Bool.not_false, Bool.not_true, Bool.false_eq_true, if_true, if_false, List.map_cons,
      List.map_append, hbody, hrest, hcond, ← Nat.add_assoc]
  | fork test body other rest ihbody ihother ihrest =>
    intro position index h
    have hbody := ihbody _ _ h.tail.left
    have helse := h.tail.right
    rw [length_nodes] at helse
    have e : position + 1 + body.width = position + body.width + 1 := by omega
    rw [e] at helse
    have hother := ihother _ _ helse.tail.left
    have hend := helse.tail.right
    rw [length_nodes] at hend
    have e' : position + body.width + 1 + 1 + other.width = position + body.width + other.width + 2 := by
      omega
    rw [e'] at hend
    have hrest := ihrest _ _ hend.tail
    have hcond : Node.lower .endless siblings offset block table
        ⟨index, .branch test (some (position + body.width + 1))
          (some (position + body.width + other.width + 2))⟩ =
        .ok (.condition test (offset + index + 1) (offset + index + body.size + 2)) := by
      simp only [Node.lower, failIndex, helse.linkedIndex_eq, Except.map, Counting.place]
      congr 2
      omega
    have hjump : Node.lower .endless siblings offset block table
        ⟨index + 1 + body.size, .otherwise (some (position + body.width + other.width + 2))⟩ =
        .ok (.jump (offset + index + body.size + 2 + other.size)) := by
      simp only [Node.lower, hend.linkedIndex_eq, Except.map, Counting.place]
      congr 2
      omega
    simp only [nodes, code, List.filter_cons, List.filter_append, isMarker_branch, isMarker_otherwise,
      isMarker_endIf, Bool.not_false, Bool.not_true, Bool.false_eq_true, if_true, if_false,
      List.map_cons, List.map_append, hbody, hother, hrest, hcond, hjump, ← Nat.add_assoc]

end SceneScript
