import SceneScript.Block.Link

/-!
# Well-nested branches

`Linked position ns ms` is the grammar of well-nested nodes: a sequence of items, each a node outside the
nesting, a branch up to its end, or a branch with a second part up to its end.  `ms` are the nodes `ns` with
every branch linked to its own partners, when the first of them stands at `position`.

    link block ns = .ok ms ↔ Linked 0 ns ms                          (link_eq_ok_iff)
-/

namespace SceneScript

/-- Whether the node takes no part in the nesting of branches. -/
def NodeKind.isStep : NodeKind → Bool
  | .plain _ | .entry _ | .skip _ => true
  | .branch _ _ _ | .otherwise _ | .endIf => false

namespace Block

/-- Well-nested nodes from `position` on, and the same nodes linked. -/
inductive Linked : Nat → List Node → List Node → Prop
  | nil {position : Nat} : Linked position [] []
  | step {position : Nat} {n : Node} {ns ms : List Node} :
      n.kind.isStep = true → Linked (position + 1) ns ms → Linked position (n :: ns) (n :: ms)
  | branch {position index last : Nat} {test : Expr} {elseAt endAt : Option Nat}
      {body body' rest rest' : List Node} :
      Linked (position + 1) body body' →
      Linked (position + body.length + 2) rest rest' →
      Linked position (⟨index, .branch test elseAt endAt⟩ :: (body ++ ⟨last, .endIf⟩ :: rest))
        (⟨index, .branch test none (some (position + body.length + 1))⟩ ::
          (body' ++ ⟨last, .endIf⟩ :: rest'))
  | fork {position index middle last : Nat} {test : Expr} {elseAt endAt endAt' : Option Nat}
      {body body' other other' rest rest' : List Node} :
      Linked (position + 1) body body' →
      Linked (position + body.length + 2) other other' →
      Linked (position + body.length + other.length + 3) rest rest' →
      Linked position
        (⟨index, .branch test elseAt endAt⟩ ::
          (body ++ ⟨middle, .otherwise endAt'⟩ :: (other ++ ⟨last, .endIf⟩ :: rest)))
        (⟨index, .branch test (some (position + body.length + 1))
            (some (position + body.length + other.length + 2))⟩ ::
          (body' ++ ⟨middle, .otherwise (some (position + body.length + other.length + 2))⟩ ::
            (other' ++ ⟨last, .endIf⟩ :: rest')))

theorem Linked.append {position : Nat} {as as' bs bs' : List Node} (ha : Linked position as as') :
    Linked (position + as.length) bs bs' → Linked position (as ++ bs) (as' ++ bs') := by
  induction ha with
  | nil =>
    intro hb
    exact hb
  | step hn _ ih =>
    intro hb
    refine .step hn (ih ?_)
    rw [List.length_cons] at hb
    rwa [Nat.add_assoc, Nat.add_comm 1]
  | @branch position _ _ _ _ _ body _ rest _ hbody _ _ ih =>
    intro hb
    have hpos : position + body.length + 2 + rest.length =
        position + (body.length + (rest.length + 1) + 1) := by omega
    simp only [List.length_cons, List.length_append] at hb
    simp only [List.cons_append, List.append_assoc]
    exact .branch hbody (ih (by rw [hpos]; exact hb))
  | @fork position _ _ _ _ _ _ _ body _ other _ rest _ hbody hother _ _ _ ih =>
    intro hb
    have hpos : position + body.length + other.length + 3 + rest.length =
        position + (body.length + (other.length + (rest.length + 1) + 1) + 1) := by omega
    simp only [List.length_cons, List.length_append] at hb
    simp only [List.cons_append, List.append_assoc]
    exact .fork hbody hother (ih (by rw [hpos]; exact hb))

theorem Linked.length_eq {position : Nat} {ns ms : List Node} (h : Linked position ns ms) :
    ms.length = ns.length := by
  induction h with
  | nil => rfl
  | step _ _ ih => simp [ih]
  | branch _ _ ihbody ihrest => simp [ihbody, ihrest]
  | fork _ _ _ ihbody ihother ihrest => simp [ihbody, ihother, ihrest]

/-! ## The linker follows the grammar -/

theorem linkFrom_step (block : String) (opened : List (Option Nat)) (position : Nat) (n : Node)
    (ns : List Node) (hn : n.kind.isStep = true) :
    linkFrom block opened position (n :: ns) =
      (linkFrom block opened (position + 1) ns).map fun r => (n :: r.1, r.2) := by
  rw [linkFrom]
  · cases linkFrom block opened (position + 1) ns <;> rfl
  · rintro _ _ _ _ rfl
    simp [NodeKind.isStep] at hn
  · rintro _ _ rfl
    simp [NodeKind.isStep] at hn
  · rintro _ rfl
    simp [NodeKind.isStep] at hn

/-- The linker goes through well-nested nodes without touching what is open around them. -/
theorem linkFrom_append (block : String) {position : Nat} {ns ms : List Node}
    (h : Linked position ns ms) :
    ∀ (opened : List (Option Nat)) (tail : List Node),
      linkFrom block opened position (ns ++ tail) =
        (linkFrom block opened (position + ns.length) tail).map fun r => (ms ++ r.1, r.2) := by
  induction h with
  | nil =>
    intro opened tail
    simp only [List.nil_append, List.length_nil, Nat.add_zero]
    cases linkFrom block opened _ tail <;> rfl
  | @step position n ns ms hn _ ih =>
    intro opened tail
    rw [List.cons_append, linkFrom_step _ _ _ _ _ hn, ih, List.length_cons, Nat.add_assoc,
      Nat.add_comm 1]
    cases linkFrom block opened _ tail <;> rfl
  | @branch position _ _ _ _ _ body _ rest _ _ _ ihbody ihrest =>
    intro opened tail
    have h1 : position + 1 + body.length + 1 = position + body.length + 2 := by omega
    have h2 : position + body.length + 2 + rest.length =
        position + (body.length + (rest.length + 1) + 1) := by omega
    have h3 : position + 1 + body.length = position + body.length + 1 := by omega
    simp only [List.cons_append, List.append_assoc, List.length_cons, List.length_append]
    rw [linkFrom, ihbody, linkFrom, h1, ihrest, h2, h3]
    cases linkFrom block opened _ tail <;> simp [Except.map]
  | @fork position _ _ _ _ _ _ _ body _ other _ rest _ _ _ _ ihbody ihother ihrest =>
    intro opened tail
    have h1 : position + 1 + body.length + 1 = position + body.length + 2 := by omega
    have h2 : position + body.length + 2 + other.length + 1 =
        position + body.length + other.length + 3 := by omega
    have h3 : position + body.length + other.length + 3 + rest.length =
        position + (body.length + (other.length + (rest.length + 1) + 1) + 1) := by omega
    have h4 : position + 1 + body.length = position + body.length + 1 := by omega
    have h5 : position + body.length + 2 + other.length =
        position + body.length + other.length + 2 := by omega
    simp only [List.cons_append, List.append_assoc, List.length_cons, List.length_append]
    rw [linkFrom, ihbody, linkFrom, h1, ihother, linkFrom, h2, ihrest, h3, h4, h5]
    cases linkFrom block opened _ tail <;> simp [Except.map]

/-- What is left of a block inside the branches `opened`: well-nested nodes up to the end of each, the
innermost first, and well-nested nodes after the last.  The other arguments are the results of the linker. -/
inductive Closing : List (Option Nat) → Nat → List Node → List Node → List (Option Nat × Nat) → Prop
  | done {position : Nat} {ns ms : List Node} : Linked position ns ms → Closing [] position ns ms []
  | close {opened : List (Option Nat)} {elseAt : Option Nat} {position last : Nat}
      {ns ms rest rest' : List Node} {closed : List (Option Nat × Nat)} :
      Linked position ns ms → Closing opened (position + ns.length + 1) rest rest' closed →
      Closing (elseAt :: opened) position (ns ++ ⟨last, .endIf⟩ :: rest)
        (ms ++ ⟨last, .endIf⟩ :: rest') ((elseAt, position + ns.length) :: closed)
  | turn {opened : List (Option Nat)} {position middle last : Nat} {endAt : Option Nat}
      {ns ms other other' rest rest' : List Node} {closed : List (Option Nat × Nat)} :
      Linked position ns ms → Linked (position + ns.length + 1) other other' →
      Closing opened (position + ns.length + other.length + 2) rest rest' closed →
      Closing (none :: opened) position
        (ns ++ ⟨middle, .otherwise endAt⟩ :: (other ++ ⟨last, .endIf⟩ :: rest))
        (ms ++ ⟨middle, .otherwise (some (position + ns.length + other.length + 1))⟩ ::
          (other' ++ ⟨last, .endIf⟩ :: rest'))
        ((some (position + ns.length), position + ns.length + other.length + 1) :: closed)

theorem Linked.prependTo {opened : List (Option Nat)} {position : Nat} {as as' ns ms : List Node}
    {closed : List (Option Nat × Nat)} (ha : Linked position as as')
    (h : Closing opened (position + as.length) ns ms closed) :
    Closing opened position (as ++ ns) (as' ++ ms) closed := by
  cases h with
  | done h => exact .done (ha.append h)
  | @close _ _ _ _ ns _ rest _ _ h hrest =>
    have e : position + as.length + ns.length = position + (as ++ ns).length := by
      rw [List.length_append, Nat.add_assoc]
    rw [e] at hrest ⊢
    rw [← List.append_assoc, ← List.append_assoc]
    exact .close (ha.append h) hrest
  | @turn _ _ _ _ _ ns _ other _ rest _ _ h hother hrest =>
    have e : position + as.length + ns.length = position + (as ++ ns).length := by
      rw [List.length_append, Nat.add_assoc]
    rw [e] at hother hrest ⊢
    rw [← List.append_assoc, ← List.append_assoc]
    exact .turn (ha.append h) hother hrest

/-- What the linker accepts is well nested, up to the ends of the branches that are open. -/
theorem closing_of_linkFrom (block : String) (ns : List Node) :
    ∀ (opened : List (Option Nat)) (position : Nat) (ms : List Node)
      (closed : List (Option Nat × Nat)),
      linkFrom block opened position ns = .ok (ms, closed) →
        Closing opened position ns ms closed := by
  induction ns with
  | nil =>
    intro opened position ms closed h
    cases opened with
    | nil =>
      simp only [linkFrom, Except.ok.injEq, Prod.mk.injEq] at h
      obtain ⟨rfl, rfl⟩ := h
      exact .done .nil
    | cons elseAt outer => simp [linkFrom] at h
  | cons n ns ih =>
    intro opened position ms closed h
    obtain ⟨index, kind⟩ := n
    by_cases hstep : kind.isStep = true
    · rw [linkFrom_step _ _ _ _ _ hstep] at h
      cases hl : linkFrom block opened (position + 1) ns with
      | error fault => simp [hl, Except.map] at h
      | ok r =>
        simp only [hl, Except.map, Except.ok.injEq, Prod.mk.injEq] at h
        obtain ⟨rfl, rfl⟩ := h
        exact (Linked.step hstep .nil).prependTo (ih _ _ _ _ hl)
    cases kind with
    | plain i => simp [NodeKind.isStep] at hstep
    | entry name => simp [NodeKind.isStep] at hstep
    | skip name => simp [NodeKind.isStep] at hstep
    | branch test elseAt endAt =>
      rw [linkFrom] at h
      cases hl : linkFrom block (none :: opened) (position + 1) ns with
      | error fault => simp [hl] at h
      | ok r =>
        obtain ⟨ms', closed'⟩ := r
        have hc := ih _ _ _ _ hl
        -- the innermost branch that the rest closes is the one opened here
        cases hc with
        | @close _ _ _ last body _ _ _ _ hbody hrest =>
          simp only [hl, Except.ok.injEq, Prod.mk.injEq] at h
          obtain ⟨rfl, rfl⟩ := h
          have e : position + 1 + body.length = position + body.length + 1 := by omega
          have hone : Linked position (⟨index, .branch test elseAt endAt⟩ :: (body ++ [⟨last, .endIf⟩])) _ :=
            .branch hbody .nil
          have := hone.prependTo (by
            rw [e] at hrest
            simpa [Nat.add_assoc] using hrest)
          simpa [e] using this
        | @turn _ _ middle last endAt' body _ other _ _ _ _ hbody hother hrest =>
          simp only [hl, Except.ok.injEq, Prod.mk.injEq] at h
          obtain ⟨rfl, rfl⟩ := h
          have e : position + 1 + body.length = position + body.length + 1 := by omega
          have e' : position + body.length + 1 + other.length =
              position + body.length + other.length + 1 := by omega
          rw [e] at hother hrest ⊢
          rw [e'] at hrest ⊢
          have hone : Linked position (⟨index, .branch test elseAt endAt⟩ ::
              (body ++ ⟨middle, .otherwise endAt'⟩ :: (other ++ [⟨last, .endIf⟩]))) _ :=
            .fork hbody hother .nil
          have := hone.prependTo (by
            have e'' : position + (body.length + (other.length + 1 + 1) + 1) =
                position + body.length + other.length + 1 + 2 := by omega
            simpa [e''] using hrest)
          simpa using this
    | otherwise endAt =>
      match opened, h with
      | [], h => simp [linkFrom] at h
      | some _ :: _, h => simp [linkFrom] at h
      | none :: outer, h =>
        rw [linkFrom] at h
        cases hl : linkFrom block (some position :: outer) (position + 1) ns with
        | error fault => simp [hl] at h
        | ok r =>
          obtain ⟨ms', closed'⟩ := r
          simp only [hl, Except.ok.injEq, Prod.mk.injEq] at h
          obtain ⟨rfl, rfl⟩ := h
          cases ih _ _ _ _ hl with
          | @close _ _ _ _ other _ _ _ _ hother hrest =>
            have e : position + 1 + other.length = position + other.length + 1 := by omega
            rw [e] at hrest ⊢
            exact .turn .nil hother hrest
    | endIf =>
      match opened, h with
      | [], h => simp [linkFrom] at h
      | elseAt :: outer, h =>
        rw [linkFrom] at h
        cases hl : linkFrom block outer (position + 1) ns with
        | error fault => simp [hl] at h
        | ok r =>
          simp only [hl, Except.ok.injEq, Prod.mk.injEq] at h
          obtain ⟨rfl, rfl⟩ := h
          exact .close .nil (ih _ _ _ _ hl)

/-- **The linker accepts exactly the well-nested nodes.** -/
theorem link_eq_ok_iff (block : String) (ns ms : List Node) :
    link block ns = .ok ms ↔ Linked 0 ns ms := by
  unfold link
  constructor
  · intro h
    cases hl : linkFrom block [] 0 ns with
    | error fault => simp [hl, Except.map] at h
    | ok r =>
      obtain ⟨ms', closed⟩ := r
      simp only [hl, Except.map, Except.ok.injEq] at h
      subst h
      cases closing_of_linkFrom block ns _ _ _ _ hl with
      | done h => exact h
  · intro h
    have := linkFrom_append block h [] []
    rw [List.append_nil] at this
    rw [this]
    simp [linkFrom, Except.map]

theorem Linked.unique {position : Nat} {ns ms ms' : List Node} (h : Linked position ns ms)
    (h' : Linked position ns ms') : ms = ms' := by
  have e := (linkFrom_append "" h [] []).symm.trans (linkFrom_append "" h' [] [])
  simpa [linkFrom, Except.map] using e

/-! ## Taking well-nested nodes apart -/

theorem Linked.of_cons {position : Nat} {n : Node} {ns ms : List Node}
    (h : Linked position (n :: ns) ms) (hn : n.kind.isStep = true) :
    ∃ ms', ms = n :: ms' ∧ Linked (position + 1) ns ms' := by
  cases h with
  | step _ h => exact ⟨_, rfl, h⟩
  | branch => simp [NodeKind.isStep] at hn
  | fork => simp [NodeKind.isStep] at hn

theorem concat_eq_append_cons {as bs cs : List Node} {n z : Node} (h : as ++ [n] = bs ++ z :: cs)
    (hne : n ≠ z) : ∃ cs', cs = cs' ++ [n] ∧ as = bs ++ z :: cs' := by
  rcases List.eq_nil_or_concat cs with rfl | ⟨cs', m, rfl⟩
  · obtain ⟨-, hz⟩ := List.append_inj' h rfl
    exact absurd (List.singleton_inj.1 hz) hne
  · have h' : as ++ [n] = (bs ++ z :: cs') ++ [m] := by simpa using h
    obtain ⟨has, hm⟩ := List.append_inj' h' rfl
    obtain rfl := List.singleton_inj.1 hm
    exact ⟨cs', by simp, has⟩

theorem Linked.of_concat {position : Nat} {n : Node} {ns ms : List Node}
    (h : Linked position (ns ++ [n]) ms) (hn : n.kind.isStep = true) :
    ∃ ms', ms = ms' ++ [n] ∧ Linked position ns ms' := by
  have hend : ∀ last, n ≠ ⟨last, .endIf⟩ := by
    rintro last rfl
    simp [NodeKind.isStep] at hn
  generalize hall : ns ++ [n] = all at h
  -- the last node ends no branch, so in each case it stands in what follows the first item
  induction h generalizing ns with
  | nil => simp at hall
  | step hm hrest ih =>
    cases ns with
    | nil =>
      simp only [List.nil_append, List.cons.injEq] at hall
      obtain ⟨rfl, rfl⟩ := hall
      cases hrest
      exact ⟨[], rfl, .nil⟩
    | cons a ns =>
      simp only [List.cons_append, List.cons.injEq] at hall
      obtain ⟨rfl, rfl⟩ := hall
      obtain ⟨ms', rfl, h⟩ := ih rfl
      exact ⟨a :: ms', rfl, .step hm h⟩
  | branch hbody _ _ ih =>
    rw [← List.cons_append] at hall
    obtain ⟨rest, rfl, rfl⟩ := concat_eq_append_cons hall (hend _)
    obtain ⟨ms', rfl, h⟩ := ih rfl
    refine ⟨_, ?_, .branch hbody h⟩
    simp
  | fork hbody hother _ _ _ ih =>
    rw [← List.cons_append, ← List.cons_append, ← List.append_assoc] at hall
    obtain ⟨rest, rfl, rfl⟩ := concat_eq_append_cons hall (hend _)
    obtain ⟨ms', rfl, h⟩ := ih rfl
    simp only [List.cons_append, List.append_assoc]
    refine ⟨_, ?_, .fork hbody hother h⟩
    simp

end Block

end SceneScript
