import SceneScript.Proofs.Block.Assembly

/-!
# The structured reading of statements

`Reads sym heads ss p`: the statements `ss` are the plan `p`, written out with the words for if, else and end.
Statements have at most one reading, and the statements of accepted blocks have one.
-/

namespace SceneScript

/-- How many instructions a block becomes: one for each statement that does not only mark an end, one that
enters the block and one that ends it. -/
def Block.size (b : Block) : Nat := (b.statements.filter fun s => s.keyword ≠ .endIf).length + 2

/-- Where the first block of that name starts, if the first of all starts at the given position. -/
def Block.headFrom? : Nat → List Block → String → Option Nat
  | _, [], _ => none
  | head, b :: bs, name => if b.name = name then some head else headFrom? (head + b.size) bs name

/-- Outside the nesting of branches, the statement is the instruction `i`, if the blocks start where `heads`
says. -/
def Statement.Does (sym : Symbols) (heads : String → Option Nat) (s : Statement) (i : Instruction) : Prop :=
  s.keyword ∉ [.ifThen, .otherwise, .endIf] ∧
    (s.node sym = .ok (.plain i) ∨
      ∃ name head, s.node sym = .ok (.entry name) ∧ heads name = some head ∧ i = .blockEntry head)

/-- The statements are the plan, written out. -/
inductive Reads (sym : Symbols) (heads : String → Option Nat) :
    List Statement → Plan Instruction → Prop
  | done : Reads sym heads [] .done
  | act {s : Statement} {i : Instruction} {ss : List Statement} {p : Plan Instruction} :
      s.Does sym heads i → Reads sym heads ss p → Reads sym heads (s :: ss) (.act i p)
  | branch {s z : Statement} {test : Expr} {ss ts : List Statement} {p q : Plan Instruction} :
      s.Tests sym test → Reads sym heads ss p → z.keyword = .endIf → Reads sym heads ts q →
      Reads sym heads (s :: (ss ++ z :: ts)) (.branch test p q)
  | fork {s m z : Statement} {test : Expr} {ss ts us : List Statement} {p q r : Plan Instruction} :
      s.Tests sym test → Reads sym heads ss p → m.keyword = .otherwise → Reads sym heads ts q →
      z.keyword = .endIf → Reads sym heads us r →
      Reads sym heads (s :: (ss ++ m :: (ts ++ z :: us))) (.fork test p q r)

/-! ## Uniqueness -/

section

variable {sym : Symbols} {heads : String → Option Nat}

theorem Statement.Does.unique {s : Statement} {i j : Instruction} (hi : s.Does sym heads i)
    (hj : s.Does sym heads j) : i = j := by
  obtain ⟨-, hi | ⟨name, head, hi, hhead, rfl⟩⟩ := hi
  · obtain ⟨-, hj | ⟨name, head, hj, -, rfl⟩⟩ := hj
    · rw [hi] at hj
      cases hj
      rfl
    · rw [hi] at hj
      cases hj
  · obtain ⟨-, hj | ⟨name', head', hj, hhead', rfl⟩⟩ := hj
    · rw [hi] at hj
      cases hj
    · rw [hi] at hj
      cases hj
      rw [hhead] at hhead'
      cases hhead'
      rfl

theorem Statement.Tests.unique {s : Statement} {test test' : Expr} (h : s.Tests sym test)
    (h' : s.Tests sym test') : test = test' := by
  obtain ⟨-, text, harg, hparse⟩ := h
  obtain ⟨-, text', harg', hparse'⟩ := h'
  rw [harg] at harg'
  cases harg'
  rw [hparse] at hparse'
  cases hparse'
  rfl

/-- The statements do not go on with the sequence before them. -/
def Stops (ss : List Statement) : Prop :=
  ∀ s ∈ ss.head?, s.keyword = .otherwise ∨ s.keyword = .endIf

theorem Stops.not_does {s : Statement} {ss : List Statement} (h : Stops (s :: ss)) {i : Instruction} :
    ¬s.Does sym heads i := by
  rintro ⟨hk, -⟩
  rcases h s rfl with h | h <;> simp [h] at hk

theorem Stops.not_tests {s : Statement} {ss : List Statement} (h : Stops (s :: ss)) {test : Expr} :
    ¬s.Tests sym test := by
  rintro ⟨hk, -⟩
  rcases h s rfl with h | h <;> simp [h] at hk

theorem stops_cons {s : Statement} {ss : List Statement}
    (h : s.keyword = .otherwise ∨ s.keyword = .endIf) : Stops (s :: ss) := by
  intro s' hs'
  cases hs'
  exact h

theorem Statement.Tests.not_does {s : Statement} {test : Expr} (h : s.Tests sym test) {i : Instruction} :
    ¬s.Does sym heads i := by
  rintro ⟨hk, -⟩
  simp [h.1] at hk

/-- Two readings of the same text, up to where each stops, are the same. -/
theorem Reads.unique_append {ss : List Statement} {p : Plan Instruction} (h : Reads sym heads ss p) :
    ∀ {ts r r' : List Statement} {q : Plan Instruction}, Reads sym heads ts q → Stops r → Stops r' →
      ss ++ r = ts ++ r' → p = q ∧ r = r' := by
  induction h with
  | done =>
    intro ts r r' q h' hr hr' e
    rw [List.nil_append] at e
    subst e
    cases h' with
    | done => exact ⟨rfl, rfl⟩
    | act hs _ => exact absurd hs (Stops.not_does hr)
    | branch hs _ _ _ => exact absurd hs (Stops.not_tests hr)
    | fork hs _ _ _ _ _ => exact absurd hs (Stops.not_tests hr)
  | act hs _ ih =>
    intro ts r r' q h' hr hr' e
    cases h' with
    | done =>
      rw [List.nil_append] at e
      subst e
      exact absurd hs (Stops.not_does hr')
    | act hs' h' =>
      obtain ⟨rfl, e1⟩ := List.cons.inj e
      obtain rfl := hs.unique hs'
      obtain ⟨rfl, rfl⟩ := ih h' hr hr' e1
      exact ⟨rfl, rfl⟩
    | branch hs' _ _ _ =>
      obtain ⟨rfl, e1⟩ := List.cons.inj e
      exact absurd hs hs'.not_does
    | fork hs' _ _ _ _ _ =>
      obtain ⟨rfl, e1⟩ := List.cons.inj e
      exact absurd hs hs'.not_does
  | branch hs _ hz _ ihbody ih =>
    intro ts r r' q h' hr hr' e
    cases h' with
    | done =>
      rw [List.nil_append] at e
      subst e
      exact absurd hs (Stops.not_tests hr')
    | act hs' _ =>
      obtain ⟨rfl, e1⟩ := List.cons.inj e
      exact absurd hs' hs.not_does
    | branch hs' hbody hz' hrest =>
      simp only [List.cons_append, List.append_assoc, List.cons.injEq] at e
      obtain ⟨rfl, e1⟩ := e
      obtain rfl := hs.unique hs'
      obtain ⟨rfl, e2⟩ := ihbody hbody (stops_cons (.inr hz)) (stops_cons (.inr hz')) e1
      obtain ⟨rfl, e3⟩ := List.cons.inj e2
      obtain ⟨rfl, rfl⟩ := ih hrest hr hr' e3
      exact ⟨rfl, rfl⟩
    | fork hs' hbody hm' _ _ _ =>
      simp only [List.cons_append, List.append_assoc, List.cons.injEq] at e
      obtain ⟨rfl, e1⟩ := e
      obtain ⟨rfl, e2⟩ := ihbody hbody (stops_cons (.inr hz)) (stops_cons (.inl hm')) e1
      obtain ⟨rfl, e3⟩ := List.cons.inj e2
      rw [hz] at hm'
      cases hm'
  | fork hs _ hm _ hz _ ihbody ihother ih =>
    intro ts r r' q h' hr hr' e
    cases h' with
    | done =>
      rw [List.nil_append] at e
      subst e
      exact absurd hs (Stops.not_tests hr')
    | act hs' _ =>
      obtain ⟨rfl, e1⟩ := List.cons.inj e
      exact absurd hs' hs.not_does
    | branch hs' hbody hz' _ =>
      simp only [List.cons_append, List.append_assoc, List.cons.injEq] at e
      obtain ⟨rfl, e1⟩ := e
      obtain ⟨rfl, e2⟩ := ihbody hbody (stops_cons (.inl hm)) (stops_cons (.inr hz')) e1
      obtain ⟨rfl, e3⟩ := List.cons.inj e2
      rw [hm] at hz'
      cases hz'
    | fork hs' hbody hm' hother hz' hrest =>
      simp only [List.cons_append, List.append_assoc, List.cons.injEq] at e
      obtain ⟨rfl, e1⟩ := e
      obtain rfl := hs.unique hs'
      obtain ⟨rfl, e2⟩ := ihbody hbody (stops_cons (.inl hm)) (stops_cons (.inl hm')) e1
      obtain ⟨rfl, e3⟩ := List.cons.inj e2
      obtain ⟨rfl, e4⟩ := ihother hother (stops_cons (.inr hz)) (stops_cons (.inr hz')) e3
      obtain ⟨rfl, e5⟩ := List.cons.inj e4
      obtain ⟨rfl, rfl⟩ := ih hrest hr hr' e5
      exact ⟨rfl, rfl⟩

theorem Reads.unique {ss : List Statement} {p q : Plan Instruction} (h : Reads sym heads ss p)
    (h' : Reads sym heads ss q) : p = q :=
  (h.unique_append h' (r := []) (by simp [Stops]) (by simp [Stops]) rfl).1

/-! ## Existence -/

theorem Statement.does_of_node {s : Statement} {a : Step} (h : s.node sym = .ok a.kind)
    (ha : a.Resolved heads) : s.Does sym heads (a.instruction heads) := by
  obtain ⟨test, -, hk⟩ | ⟨-, hk⟩ | ⟨-, hk⟩ | ⟨hkeyword, -⟩ := node_cases h
  · cases a <;> cases hk
  · cases a <;> cases hk
  · cases a <;> cases hk
  · refine ⟨hkeyword, ?_⟩
    cases a with
    | perform i => exact .inl h
    | enter block =>
      obtain ⟨head, hhead⟩ := ha
      exact .inr ⟨block, head, h, hhead, by simp [Step.instruction, hhead]⟩

theorem Statement.tests_of_node {s : Statement} {test : Expr}
    (h : s.node sym = .ok (.branch test none none)) : s.Tests sym test := by
  obtain ⟨test', htest, hk⟩ | ⟨-, hk⟩ | ⟨-, hk⟩ | ⟨-, a, hk, -⟩ := node_cases h
  · cases hk
    exact htest
  · cases hk
  · cases hk
  · cases a <;> cases hk

theorem Statement.keyword_of_node_otherwise {s : Statement}
    (h : s.node sym = .ok (.otherwise none)) : s.keyword = .otherwise := by
  obtain ⟨test, -, hk⟩ | ⟨hkeyword, -⟩ | ⟨-, hk⟩ | ⟨-, a, hk, -⟩ := node_cases h
  · cases hk
  · exact hkeyword
  · cases hk
  · cases a <;> cases hk

theorem Statement.keyword_of_node_endIf {s : Statement} (h : s.node sym = .ok .endIf) :
    s.keyword = .endIf := by
  obtain ⟨test, -, hk⟩ | ⟨-, hk⟩ | ⟨hkeyword, -⟩ | ⟨-, a, hk, -⟩ := node_cases h
  · cases hk
  · cases hk
  · exact hkeyword
  · cases a <;> cases hk

/-- Statements whose nodes are those of a plan are that plan, written out. -/
theorem reads_of_kinds {p : Plan Step} (hp : p.All (Step.Resolved heads)) :
    ∀ {ss : List Statement}, ss.map (Statement.node sym) = p.kinds.map .ok →
      Reads sym heads ss (p.map (Step.instruction heads)) := by
  induction p with
  | done =>
    intro ss h
    obtain rfl : ss = [] := by simpa [Plan.kinds] using h
    exact .done
  | act a p ih =>
    intro ss h
    obtain ⟨s, ss, rfl, hs, hss⟩ := List.map_eq_cons_iff.1 h
    exact .act (Statement.does_of_node hs hp.1) (ih hp.2 hss)
  | branch test body p ihbody ih =>
    intro ss h
    rw [Plan.kinds, List.map_cons, List.map_append, List.map_cons] at h
    obtain ⟨s, ss, rfl, hs, hss⟩ := List.map_eq_cons_iff.1 h
    obtain ⟨bs, ts, rfl, hbs, hts⟩ := List.map_eq_append_iff.1 hss
    obtain ⟨z, ts, rfl, hz, hts⟩ := List.map_eq_cons_iff.1 hts
    exact .branch (Statement.tests_of_node hs) (ihbody hp.1 hbs) (Statement.keyword_of_node_endIf hz)
      (ih hp.2 hts)
  | fork test body other p ihbody ihother ih =>
    intro ss h
    rw [Plan.kinds, List.map_cons, List.map_append, List.map_cons, List.map_append, List.map_cons] at h
    obtain ⟨s, ss, rfl, hs, hss⟩ := List.map_eq_cons_iff.1 h
    obtain ⟨bs, ts, rfl, hbs, hts⟩ := List.map_eq_append_iff.1 hss
    obtain ⟨m, ts, rfl, hm, hts⟩ := List.map_eq_cons_iff.1 hts
    obtain ⟨os, us, rfl, hos, hus⟩ := List.map_eq_append_iff.1 hts
    obtain ⟨z, us, rfl, hz, hus⟩ := List.map_eq_cons_iff.1 hus
    exact .fork (Statement.tests_of_node hs) (ihbody hp.1 hbs) (Statement.keyword_of_node_otherwise hm)
      (ihother hp.2.1 hos) (Statement.keyword_of_node_endIf hz) (ih hp.2.2 hus)

theorem Block.Means.reads {b : Block} {r : Routine} (h : b.Means sym r)
    (hr : r.plan.All (Step.Resolved heads)) :
    Reads sym heads b.statements (r.plan.map (Step.instruction heads)) :=
  reads_of_kinds hr ((collect_eq_ok_iff _ _ _).1 h.2.1)

/-! ## Sizes and places -/

theorem length_filter_of_kinds {ss : List Statement} {kinds : List NodeKind}
    (h : ss.map (Statement.node sym) = kinds.map .ok) :
    (ss.filter fun s => s.keyword ≠ .endIf).length = Block.unmarked (kinds.map (Node.mk 0)) := by
  induction ss generalizing kinds with
  | nil =>
    obtain rfl : kinds = [] := by simpa using h.symm
    rfl
  | cons s ss ih =>
    obtain ⟨k, kinds, rfl, hk, hkinds⟩ := List.map_eq_cons_iff.1 h.symm
    have hs : (⟨0, k⟩ : Node).isMarker = decide (s.keyword = .endIf) := by
      obtain ⟨test, htest, rfl⟩ | ⟨hkeyword, rfl⟩ | ⟨hkeyword, rfl⟩ | ⟨hkeyword, a, rfl, -⟩ :=
        Statement.node_cases hk.symm
      · simp [htest.1]
      · simp [hkeyword]
      · simp [hkeyword]
      · have : s.keyword ≠ .endIf := by
          intro h
          simp [h] at hkeyword
        simp [this]
    rw [List.map_cons, Block.unmarked_cons, ← ih hkinds.symm, hs, List.filter_cons]
    by_cases h : s.keyword = .endIf <;> simp [h, Nat.add_comm]

theorem Block.Means.size_eq {b : Block} {r : Routine} (h : b.Means sym r) : b.size = r.size := by
  unfold Block.size Routine.size
  rw [length_filter_of_kinds ((collect_eq_ok_iff _ _ _).1 h.2.1), Plan.unmarked_kinds]

theorem headFrom?_of_means {blocks : List Block} {rs : List Routine}
    (h : List.Forall₂ (Block.Means sym) blocks rs) (head : Nat) :
    Block.headFrom? head blocks = Routine.headFrom? head rs := by
  funext name
  induction h generalizing head with
  | nil => rfl
  | cons hb _ ih => rw [Block.headFrom?, Routine.headFrom?, hb.1, hb.size_eq, ih]

end

end SceneScript
