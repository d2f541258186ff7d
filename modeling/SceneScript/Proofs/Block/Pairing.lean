import SceneScript.Proofs.Block.Layout

/-!
# Partners of branches

The nodes of a block can be linked exactly if they are well nested, whatever links they carry before.  Every branch
is then linked to its own second part and its own end, which the nodes alone decide, and linking once more changes
nothing.  Other nodes have a first one after which nothing can make them well nested, which tells the fault; or they
have none, and branches are left open.

    (∃ ms, link block ns = .ok ms) ↔ WellNested ns
    link block ns = .ok ms ↔ WellNested ns ∧ Paired ns ms
    link block ns = .ok ms → link block ms = .ok ms
    link block ns = .error fault ↔ a first node breaks the nesting, or branches are left open
                                                                     (link_iff_wellNested)

`Inside` tells which branches are open after some nodes.  A node that does not break the nesting leads from
there to the same for one node more (`Inside.step`), and the linker goes on from there with these branches open
(`Inside.linkFrom_append`).
-/

namespace SceneScript.Block

/-- Well-nested nodes: a sequence of items, each a step, a branch up to its end, or a branch with a second part up
to its end. -/
inductive WellNested : List Node → Prop
  | nil : WellNested []
  | step {n : Node} {ns : List Node} : n.kind.isStep = true → WellNested ns → WellNested (n :: ns)
  | branch {index last : Nat} {test : Expr} {elseAt endAt : Option Nat} {body rest : List Node} :
      WellNested body → WellNested rest →
      WellNested (⟨index, .branch test elseAt endAt⟩ :: (body ++ ⟨last, .endIf⟩ :: rest))
  | fork {index middle last : Nat} {test : Expr} {elseAt endAt endAt' : Option Nat}
      {body other rest : List Node} :
      WellNested body → WellNested other → WellNested rest →
      WellNested (⟨index, .branch test elseAt endAt⟩ ::
        (body ++ ⟨middle, .otherwise endAt'⟩ :: (other ++ ⟨last, .endIf⟩ :: rest)))

/-- Among the nodes, the branch at one position has its own second part, if any, and its own end at the other
two: what stands between them is well nested. -/
inductive Partners (ns : List Node) : Nat → Option Nat → Nat → Prop
  | branch {first index last : Nat} {test : Expr} {elseAt endAt : Option Nat} {body : List Node} :
      StandsAt (⟨index, .branch test elseAt endAt⟩ :: (body ++ [⟨last, .endIf⟩])) first ns → WellNested body →
      Partners ns first none (first + body.length + 1)
  | fork {first index middle last : Nat} {test : Expr} {elseAt endAt endAt' : Option Nat}
      {body other : List Node} :
      StandsAt (⟨index, .branch test elseAt endAt⟩ ::
        (body ++ ⟨middle, .otherwise endAt'⟩ :: (other ++ [⟨last, .endIf⟩]))) first ns →
      WellNested body → WellNested other →
      Partners ns first (some (first + body.length + 1)) (first + body.length + other.length + 2)

/-- The nodes `ms` are the nodes `ns` with every branch linked to its own partners. -/
structure Paired (ns ms : List Node) : Prop where
  kept : ms.map Node.unlinked = ns.map Node.unlinked
  branch : ∀ (place index : Nat) (test : Expr) (elseAt endAt : Option Nat),
    ms[place]? = some ⟨index, .branch test elseAt endAt⟩ →
      ∃ last, endAt = some last ∧ Partners ns place elseAt last
  otherwise : ∀ (place index : Nat) (endAt : Option Nat), ms[place]? = some ⟨index, .otherwise endAt⟩ →
    ∃ (first index' : Nat) (test : Expr) (last : Nat), endAt = some last ∧
      ms[first]? = some ⟨index', .branch test (some place) (some last)⟩

/-- Some nodes after these make them well nested. -/
def Continues (ns : List Node) : Prop := ∃ rest, WellNested (ns ++ rest)

/-- The branches that are open after the nodes, the innermost first, each with whether its second part has
begun. -/
inductive Inside : List Node → List Bool → Prop
  | outside {ns : List Node} : WellNested ns → Inside ns []
  | first {ns body : List Node} {opened : List Bool} {index : Nat} {test : Expr} {elseAt endAt : Option Nat} :
      Inside ns opened → WellNested body →
      Inside (ns ++ ⟨index, .branch test elseAt endAt⟩ :: body) (false :: opened)
  | second {ns body other : List Node} {opened : List Bool} {index middle : Nat} {test : Expr}
      {elseAt endAt endAt' : Option Nat} :
      Inside ns opened → WellNested body → WellNested other →
      Inside (ns ++ ⟨index, .branch test elseAt endAt⟩ :: (body ++ ⟨middle, .otherwise endAt'⟩ :: other))
        (true :: opened)

/-- After the nodes `before`, the node breaks the nesting: it ends a branch or starts a second part where no branch is
open, or it starts another second part of the innermost open branch. -/
inductive Breaks (block : String) : List Node → Node → Fault → Prop
  | unexpectedEnd {before : List Node} {index : Nat} : Inside before [] →
      Breaks block before ⟨index, .endIf⟩ (.unexpectedEnd block before.length)
  | elseWithoutIf {before : List Node} {index : Nat} {endAt : Option Nat} : Inside before [] →
      Breaks block before ⟨index, .otherwise endAt⟩ (.elseWithoutIf block before.length)
  | duplicateElse {before : List Node} {outer : List Bool} {index : Nat} {endAt : Option Nat} :
      Inside before (true :: outer) →
      Breaks block before ⟨index, .otherwise endAt⟩ (.duplicateElse block before.length)

/-! ## Well-nested nodes are those that can be linked -/

theorem Linked.wellNested {position : Nat} {ns ms : List Node} (h : Linked position ns ms) : WellNested ns := by
  induction h with
  | nil => exact .nil
  | step hn _ ih => exact .step hn ih
  | branch _ _ ihbody ihrest => exact .branch ihbody ihrest
  | fork _ _ _ ihbody ihother ihrest => exact .fork ihbody ihother ihrest

theorem WellNested.exists_linked {ns : List Node} (h : WellNested ns) (position : Nat) :
    ∃ ms, Linked position ns ms := by
  induction h generalizing position with
  | nil => exact ⟨[], .nil⟩
  | step hn _ ih =>
    obtain ⟨ms, hms⟩ := ih (position + 1)
    exact ⟨_, .step hn hms⟩
  | @branch _ _ _ _ _ body _ _ _ ihbody ihrest =>
    obtain ⟨body', hbody⟩ := ihbody (position + 1)
    obtain ⟨rest', hrest⟩ := ihrest (position + body.length + 2)
    exact ⟨_, .branch hbody hrest⟩
  | @fork _ _ _ _ _ _ _ body other _ _ _ _ ihbody ihother ihrest =>
    obtain ⟨body', hbody⟩ := ihbody (position + 1)
    obtain ⟨other', hother⟩ := ihother (position + body.length + 2)
    obtain ⟨rest', hrest⟩ := ihrest (position + body.length + other.length + 3)
    exact ⟨_, .fork hbody hother hrest⟩

theorem exists_link_iff (block : String) (ns : List Node) : (∃ ms, link block ns = .ok ms) ↔ WellNested ns := by
  simp only [link_eq_ok_iff]
  constructor
  · rintro ⟨ms, hms⟩
    exact hms.wellNested
  · intro h
    exact h.exists_linked 0

theorem WellNested.append {as bs : List Node} (ha : WellNested as) (hb : WellNested bs) : WellNested (as ++ bs) := by
  obtain ⟨as', ha'⟩ := ha.exists_linked 0
  obtain ⟨bs', hb'⟩ := hb.exists_linked (0 + as.length)
  exact (ha'.append hb').wellNested

/-- Linked nodes are linked to themselves. -/
theorem Linked.again {position : Nat} {ns ms : List Node} (h : Linked position ns ms) : Linked position ms ms := by
  induction h with
  | nil => exact .nil
  | step hn _ ih => exact .step hn ih
  | @branch position _ _ _ _ _ body body' _ _ hbody _ ihbody ihrest =>
    rw [← hbody.length_eq] at ihrest ⊢
    exact .branch ihbody ihrest
  | @fork position _ _ _ _ _ _ _ body body' other other' _ _ hbody hother _ ihbody ihother ihrest =>
    rw [← hbody.length_eq] at ihother ihrest ⊢
    rw [← hother.length_eq] at ihrest ⊢
    exact .fork ihbody ihother ihrest

/-! ## Every branch is linked to its own partners -/

/-- What holds of a node that stands at a position among linked nodes: a branch is linked to its partners, and a
second part to the end of a branch that is linked to it. -/
def IsPaired (ns ms : List Node) (n : Node) (place : Nat) : Prop :=
  match n.kind with
  | .branch _ elseAt endAt => ∃ last, endAt = some last ∧ Partners ns place elseAt last
  | .otherwise endAt =>
    ∃ (first index : Nat) (test : Expr) (last : Nat), endAt = some last ∧
      ms[first]? = some ⟨index, .branch test (some place) (some last)⟩
  | _ => True

theorem isPaired_step {n : Node} (hn : n.kind.isStep = true) (ns ms : List Node) (place : Nat) :
    IsPaired ns ms n place := by
  obtain ⟨index, kind⟩ := n
  cases kind with
  | plain | entry | skip => trivial
  | branch | otherwise | endIf => cases hn

/-- Linked nodes that stand among others are paired there. -/
theorem Linked.isPaired {position : Nat} {ns ms all all' : List Node} (h : Linked position ns ms) :
    StandsAt ns position all → StandsAt ms position all' →
      ∀ n place, (n, place) ∈ ms.zipIdx position → IsPaired all all' n place := by
  induction h with
  | nil =>
    intro _ _ n place hn
    simp at hn
  | step hm _ ih =>
    intro hns hms n place hn
    rw [List.zipIdx_cons, List.mem_cons] at hn
    rcases hn with hn | hn
    · cases hn
      exact isPaired_step hm _ _ _
    · exact ih hns.tail hms.tail n place hn
  | @branch position index last test elseAt endAt body body' rest rest' hbody hrest ihbody ihrest =>
    intro hns hms n place hn
    have hlength := hbody.length_eq
    have hafter : position + 1 + body'.length + 1 = position + body.length + 2 := by omega
    have hafter' : position + 1 + body.length + 1 = position + body.length + 2 := by omega
    rw [List.zipIdx_cons, List.zipIdx_append, List.zipIdx_cons, hafter, List.mem_cons, List.mem_append,
      List.mem_cons] at hn
    rcases hn with hn | hn | hn | hn
    · cases hn
      have hitem : StandsAt ((⟨index, .branch test elseAt endAt⟩ :: (body ++ [⟨last, .endIf⟩])) ++ rest)
          position all := by
        simpa using hns
      exact ⟨_, rfl, .branch hitem.left hbody.wellNested⟩
    · exact ihbody hns.tail.left hms.tail.left n place hn
    · cases hn
      trivial
    · exact ihrest (hafter' ▸ hns.tail.right.tail) (hafter ▸ hms.tail.right.tail) n place hn
  | @fork position index middle last test elseAt endAt endAt' body body' other other' rest rest' hbody hother hrest
      ihbody ihother ihrest =>
    intro hns hms n place hn
    have hlength := hbody.length_eq
    have hlength' := hother.length_eq
    have hmiddle : position + 1 + body'.length = position + body.length + 1 := by omega
    have hmiddle' : position + 1 + body.length = position + body.length + 1 := by omega
    have hafter : position + body.length + 1 + 1 + other'.length + 1 = position + body.length + other.length + 3 := by
      omega
    have hafter' : position + body.length + 1 + 1 + other.length + 1 = position + body.length + other.length + 3 := by
      omega
    have hns' := hns.tail.right
    have hms' := hms.tail.right
    rw [hmiddle'] at hns'
    rw [hmiddle] at hms'
    rw [List.zipIdx_cons, List.zipIdx_append, List.zipIdx_cons, List.zipIdx_append, List.zipIdx_cons, hmiddle, hafter,
      List.mem_cons, List.mem_append, List.mem_cons, List.mem_append, List.mem_cons] at hn
    rcases hn with hn | hn | hn | hn | hn | hn
    · cases hn
      have hitem : StandsAt ((⟨index, .branch test elseAt endAt⟩ ::
          (body ++ ⟨middle, .otherwise endAt'⟩ :: (other ++ [⟨last, .endIf⟩]))) ++ rest) position all := by
        simpa using hns
      exact ⟨_, rfl, .fork hitem.left hbody.wellNested hother.wellNested⟩
    · exact ihbody hns.tail.left hms.tail.left n place hn
    · cases hn
      exact ⟨position, index, test, _, rfl, hms.head⟩
    · exact ihother hns'.tail.left hms'.tail.left n place hn
    · cases hn
      trivial
    · exact ihrest (hafter' ▸ hns'.tail.right.tail) (hafter ▸ hms'.tail.right.tail) n place hn

theorem Linked.paired {ns ms : List Node} (h : Linked 0 ns ms) : Paired ns ms where
  kept := h.map_unlinked
  branch := by
    intro place index test elseAt endAt hplace
    exact h.isPaired (.refl ns) (.refl ms) _ _ (List.mk_mem_zipIdx_iff_getElem?.2 hplace)
  otherwise := by
    intro place index endAt hplace
    exact h.isPaired (.refl ns) (.refl ms) _ _ (List.mk_mem_zipIdx_iff_getElem?.2 hplace)

/-! ## One node more -/

theorem Inside.append {ns ms : List Node} {opened : List Bool} (h : Inside ns opened) (hms : WellNested ms) :
    Inside (ns ++ ms) opened := by
  cases h with
  | outside hns => exact .outside (hns.append hms)
  | first hns hbody =>
    rw [List.append_assoc, List.cons_append]
    exact .first hns (hbody.append hms)
  | second hns hbody hother =>
    rw [List.append_assoc, List.cons_append, List.append_assoc, List.cons_append]
    exact .second hns hbody (hother.append hms)

/-- The end of the innermost open branch closes it. -/
theorem Inside.close {ns : List Node} {b : Bool} {outer : List Bool} (h : Inside ns (b :: outer)) (last : Nat) :
    Inside (ns ++ [⟨last, .endIf⟩]) outer := by
  cases h with
  | first hns hbody =>
    rw [List.append_assoc, List.cons_append]
    exact hns.append (.branch hbody .nil)
  | second hns hbody hother =>
    rw [List.append_assoc, List.cons_append, List.append_assoc, List.cons_append]
    exact hns.append (.fork hbody hother .nil)

/-- A node leads to a place inside the branches again, or it breaks the nesting. -/
theorem Inside.step {ns : List Node} {opened : List Bool} (h : Inside ns opened) (block : String) (n : Node) :
    (∃ opened', Inside (ns ++ [n]) opened') ∨ ∃ fault, Breaks block ns n fault := by
  obtain ⟨index, kind⟩ := n
  by_cases hstep : kind.isStep = true
  · exact .inl ⟨opened, h.append (.step hstep .nil)⟩
  cases kind with
  | plain | entry | skip => exact absurd rfl hstep
  | branch test elseAt endAt => exact .inl ⟨false :: opened, .first h .nil⟩
  | otherwise endAt =>
    cases h with
    | outside hns => exact .inr ⟨_, .elseWithoutIf (.outside hns)⟩
    | @first _ _ outer _ _ _ _ hns hbody =>
      rw [List.append_assoc, List.cons_append]
      exact .inl ⟨true :: outer, .second hns hbody .nil⟩
    | second hns hbody hother => exact .inr ⟨_, .duplicateElse (.second hns hbody hother)⟩
  | endIf =>
    cases opened with
    | nil => exact .inr ⟨_, .unexpectedEnd h⟩
    | cons b outer => exact .inl ⟨outer, h.close index⟩

/-- After any nodes one is inside some branches, or a node has broken the nesting. -/
theorem Inside.run {before : List Node} {opened : List Bool} (h : Inside before opened) (block : String)
    (ns : List Node) :
    (∃ opened', Inside (before ++ ns) opened') ∨
      ∃ as n bs fault, before ++ ns = as ++ n :: bs ∧ Breaks block as n fault := by
  induction ns generalizing before opened with
  | nil => exact .inl ⟨opened, by simpa using h⟩
  | cons n ns ih =>
    rcases h.step block n with ⟨opened', h'⟩ | ⟨fault, hbreaks⟩
    · rw [← List.singleton_append, ← List.append_assoc]
      exact ih h'
    · exact .inr ⟨before, n, ns, fault, rfl, hbreaks⟩

theorem inside_or_breaks (block : String) (ns : List Node) :
    (∃ opened, Inside ns opened) ∨ ∃ before n after fault, ns = before ++ n :: after ∧ Breaks block before n fault :=
  (Inside.outside .nil).run block ns

/-! ## What the linker gives -/

theorem linkFrom_branch_eq_error_iff {block : String} {opened : List (Option Nat)} {position index : Nat}
    {test : Expr} {elseAt endAt : Option Nat} {ns : List Node} {fault : Fault} :
    linkFrom block opened position (⟨index, .branch test elseAt endAt⟩ :: ns) = .error fault ↔
      linkFrom block (none :: opened) (position + 1) ns = .error fault := by
  rw [linkFrom]
  cases linkFrom block (none :: opened) (position + 1) ns with
  | error fault' => rfl
  | ok r =>
    obtain ⟨ms, closed⟩ := r
    cases closed <;> simp

theorem linkFrom_otherwise_eq_error_iff {block : String} {outer : List (Option Nat)} {position index : Nat}
    {endAt : Option Nat} {ns : List Node} {fault : Fault} :
    linkFrom block (none :: outer) position (⟨index, .otherwise endAt⟩ :: ns) = .error fault ↔
      linkFrom block (some position :: outer) (position + 1) ns = .error fault := by
  rw [linkFrom]
  cases linkFrom block (some position :: outer) (position + 1) ns with
  | error fault' => rfl
  | ok r => simp

theorem linkFrom_nested_eq_error_iff {block : String} {ns : List Node} (h : WellNested ns)
    {opened : List (Option Nat)} {position : Nat} {rest : List Node} {fault : Fault} :
    linkFrom block opened position (ns ++ rest) = .error fault ↔
      linkFrom block opened (position + ns.length) rest = .error fault := by
  obtain ⟨ms, hms⟩ := h.exists_linked position
  rw [linkFrom_append block hms, map_eq_error_iff]

/-- Inside some branches, the linker fails for the nodes that follow as it does when it starts there with these
branches open. -/
theorem Inside.linkFrom_append {before : List Node} {opened : List Bool} (h : Inside before opened) (block : String) :
    ∃ stack : List (Option Nat), stack.map Option.isSome = opened ∧
      ∀ rest fault, linkFrom block [] 0 (before ++ rest) = .error fault ↔
        linkFrom block stack before.length rest = .error fault := by
  induction h with
  | outside hns =>
    refine ⟨[], rfl, ?_⟩
    intro rest fault
    rw [linkFrom_nested_eq_error_iff hns, Nat.zero_add]
  | @first ns body _ _ _ _ _ _ hbody ih =>
    obtain ⟨stack, hstack, hlink⟩ := ih
    refine ⟨none :: stack, by rw [List.map_cons, hstack]; rfl, ?_⟩
    intro rest fault
    have hlength : ns.length + 1 + body.length = ns.length + (body.length + 1) := by omega
    rw [List.append_assoc, List.cons_append, hlink, linkFrom_branch_eq_error_iff, linkFrom_nested_eq_error_iff hbody,
      List.length_append, List.length_cons, hlength]
  | @second ns body other _ _ _ _ _ _ _ _ hbody hother ih =>
    obtain ⟨stack, hstack, hlink⟩ := ih
    refine ⟨some (ns.length + 1 + body.length) :: stack, by rw [List.map_cons, hstack]; rfl, ?_⟩
    intro rest fault
    have hlength : ns.length + 1 + body.length + 1 + other.length =
        ns.length + (body.length + (other.length + 1) + 1) := by omega
    rw [List.append_assoc, List.cons_append, List.append_assoc, List.cons_append, hlink, linkFrom_branch_eq_error_iff,
      linkFrom_nested_eq_error_iff hbody, linkFrom_otherwise_eq_error_iff, linkFrom_nested_eq_error_iff hother,
      List.length_append, List.length_cons, List.length_append, List.length_cons, hlength]

theorem Breaks.link_eq {block : String} {before : List Node} {n : Node} {fault : Fault}
    (h : Breaks block before n fault) (after : List Node) : link block (before ++ n :: after) = .error fault := by
  unfold link
  rw [map_eq_error_iff]
  cases h with
  | unexpectedEnd hinside =>
    obtain ⟨stack, hstack, hlink⟩ := hinside.linkFrom_append block
    obtain rfl : stack = [] := List.map_eq_nil_iff.1 hstack
    rw [hlink, linkFrom]
  | elseWithoutIf hinside =>
    obtain ⟨stack, hstack, hlink⟩ := hinside.linkFrom_append block
    obtain rfl : stack = [] := List.map_eq_nil_iff.1 hstack
    rw [hlink, linkFrom]
  | duplicateElse hinside =>
    obtain ⟨stack, hstack, hlink⟩ := hinside.linkFrom_append block
    obtain ⟨elseAt, stack, rfl, helse, -⟩ := List.map_eq_cons_iff.1 hstack
    obtain ⟨at', rfl⟩ := Option.isSome_iff_exists.1 helse
    rw [hlink, linkFrom]

theorem Inside.link_eq {ns : List Node} {opened : List Bool} (h : Inside ns opened) (hne : opened ≠ [])
    (block : String) : link block ns = .error (.unclosedIf block opened.length) := by
  obtain ⟨stack, rfl, hlink⟩ := h.linkFrom_append block
  have hempty := hlink [] (.unclosedIf block stack.length)
  obtain ⟨elseAt, stack, rfl⟩ := List.exists_cons_of_ne_nil (fun hnil => hne (List.map_eq_nil_iff.2 hnil))
  unfold link
  rw [map_eq_error_iff, List.length_map]
  rw [List.append_nil] at hempty
  rw [hempty, linkFrom]
  simp

/-! ## Partners are unique -/

/-- The node starts the second part of a branch or ends one. -/
def Turns (n : Node) : Prop := (∃ endAt, n.kind = .otherwise endAt) ∨ n.kind = .endIf

/-- Where nothing is open such a node breaks the nesting, so the linker tells where it stands. -/
theorem WellNested.link_turns {as : List Node} (ha : WellNested as) {n : Node} (hn : Turns n) (rest : List Node) :
    link "" (as ++ n :: rest) = .error (.elseWithoutIf "" as.length) ∨
      link "" (as ++ n :: rest) = .error (.unexpectedEnd "" as.length) := by
  obtain ⟨index, kind⟩ := n
  rcases hn with ⟨endAt, rfl⟩ | rfl
  · exact .inl ((Breaks.elseWithoutIf (.outside ha)).link_eq rest)
  · exact .inr ((Breaks.unexpectedEnd (.outside ha)).link_eq rest)

theorem WellNested.length_eq_of_turns {as bs as' bs' : List Node} {m n : Node} (ha : WellNested as)
    (hb : WellNested bs) (hm : Turns m) (hn : Turns n) (h : as ++ m :: as' = bs ++ n :: bs') :
    as.length = bs.length := by
  have hlink := ha.link_turns hm as'
  rw [h] at hlink
  rcases hlink with hlink | hlink <;> rcases hb.link_turns hn bs' with hlink' | hlink' <;> rw [hlink] at hlink' <;>
    injection hlink' with hfault
  · injection hfault
  · cases hfault
  · cases hfault
  · injection hfault

/-- Well-nested nodes from a position on, up to a node that starts a second part or ends a branch, are the same ones
up to the same node. -/
theorem WellNested.eq_of_standsAt {as bs ns : List Node} {m n : Node} {k : Nat} (ha : WellNested as)
    (hb : WellNested bs) (hm : Turns m) (hn : Turns n) (hma : StandsAt (as ++ [m]) k ns)
    (hnb : StandsAt (bs ++ [n]) k ns) : as = bs ∧ m = n := by
  obtain ⟨post, hpost⟩ := hma.drop_eq
  obtain ⟨post', hpost'⟩ := hnb.drop_eq
  rw [hpost, List.append_assoc, List.append_assoc, List.singleton_append, List.singleton_append] at hpost'
  obtain ⟨has, hrest⟩ := List.append_inj hpost' (ha.length_eq_of_turns hb hm hn hpost')
  exact ⟨has, (List.cons.inj hrest).1⟩

theorem Partners.unique {ns : List Node} {first last last' : Nat} {elseAt elseAt' : Option Nat}
    (h : Partners ns first elseAt last) (h' : Partners ns first elseAt' last') : elseAt = elseAt' ∧ last = last' := by
  have hturn : ∀ index endAt, Turns ⟨index, .otherwise endAt⟩ := fun _ endAt => .inl ⟨endAt, rfl⟩
  have hend : ∀ index, Turns ⟨index, .endIf⟩ := fun _ => .inr rfl
  have hfirst : ∀ {m n : Node} {as rest : List Node}, StandsAt (m :: (as ++ n :: rest)) first ns →
      StandsAt (as ++ [n]) (first + 1) ns := by
    intro m n as rest hstands
    have : StandsAt ((as ++ [n]) ++ rest) (first + 1) ns := by simpa using hstands.tail
    exact this.left
  cases h with
  | branch hstands hbody =>
    cases h' with
    | branch hstands' hbody' =>
      obtain ⟨rfl, -⟩ := hbody.eq_of_standsAt hbody' (hend _) (hend _) (hfirst hstands) (hfirst hstands')
      exact ⟨rfl, rfl⟩
    | fork hstands' hbody' hother' =>
      obtain ⟨-, hnode⟩ := hbody.eq_of_standsAt hbody' (hend _) (hturn _ _) (hfirst hstands) (hfirst hstands')
      cases hnode
  | fork hstands hbody hother =>
    cases h' with
    | branch hstands' hbody' =>
      obtain ⟨-, hnode⟩ := hbody.eq_of_standsAt hbody' (hturn _ _) (hend _) (hfirst hstands) (hfirst hstands')
      cases hnode
    | fork hstands' hbody' hother' =>
      obtain ⟨rfl, -⟩ := hbody.eq_of_standsAt hbody' (hturn _ _) (hturn _ _) (hfirst hstands) (hfirst hstands')
      obtain ⟨rfl, -⟩ := hother.eq_of_standsAt hother' (hend _) (hend _) hstands.tail.right.tail
        hstands'.tail.right.tail
      exact ⟨rfl, rfl⟩

/-- What stands in the second part of a branch, up to the end. -/
theorem Partners.exists_other {ns : List Node} {first place last : Nat} (h : Partners ns first (some place) last) :
    ∃ (other : List Node) (index : Nat), WellNested other ∧ StandsAt (other ++ [⟨index, .endIf⟩]) (place + 1) ns ∧
      last = place + other.length + 1 := by
  cases h with
  | @fork _ _ index _ _ _ _ body other hstands _ hother =>
    have hplace : first + 1 + body.length + 1 = first + body.length + 1 + 1 := by omega
    exact ⟨other, index, hother, hplace ▸ hstands.tail.right.tail, by omega⟩

theorem Partners.last_unique {ns : List Node} {first first' place last last' : Nat}
    (h : Partners ns first (some place) last) (h' : Partners ns first' (some place) last') : last = last' := by
  obtain ⟨other, index, hother, hstands, rfl⟩ := h.exists_other
  obtain ⟨other', index', hother', hstands', rfl⟩ := h'.exists_other
  obtain ⟨rfl, -⟩ := hother.eq_of_standsAt hother' (.inr rfl) (.inr rfl) hstands hstands'
  rfl

theorem Paired.exists_partners {ns ms : List Node} (h : Paired ns ms) {place index : Nat} {endAt : Option Nat}
    (hm : ms[place]? = some ⟨index, .otherwise endAt⟩) :
    ∃ first last, endAt = some last ∧ Partners ns first (some place) last := by
  obtain ⟨first, index', test, last, rfl, hfirst⟩ := h.otherwise _ _ _ hm
  obtain ⟨last', hlast, hpartners⟩ := h.branch _ _ _ _ _ hfirst
  cases hlast
  exact ⟨first, last, rfl, hpartners⟩

theorem Paired.eq_of_unlinked {ns ms ms' : List Node} (h : Paired ns ms) (h' : Paired ns ms') {place : Nat}
    {m m' : Node} (hm : ms[place]? = some m) (hm' : ms'[place]? = some m') (hsame : m.unlinked = m'.unlinked) :
    m = m' := by
  obtain ⟨index, kind⟩ := m
  obtain ⟨index', kind'⟩ := m'
  cases kind' with
  | plain | entry | skip => exact Node.eq_of_unlinked hsame rfl
  | endIf =>
    cases kind with
    | endIf => exact hsame
    | plain | entry | skip | branch | otherwise => cases hsame
  | branch test' elseAt' endAt' =>
    cases kind with
    | branch test elseAt endAt =>
      obtain ⟨last, rfl, hpartners⟩ := h.branch _ _ _ _ _ hm
      obtain ⟨last', rfl, hpartners'⟩ := h'.branch _ _ _ _ _ hm'
      obtain ⟨rfl, rfl⟩ := hpartners.unique hpartners'
      cases hsame
      rfl
    | plain | entry | skip | otherwise | endIf => cases hsame
  | otherwise endAt' =>
    cases kind with
    | otherwise endAt =>
      obtain ⟨first, last, rfl, hpartners⟩ := h.exists_partners hm
      obtain ⟨first', last', rfl, hpartners'⟩ := h'.exists_partners hm'
      obtain rfl := hpartners.last_unique hpartners'
      cases hsame
      rfl
    | plain | entry | skip | branch | endIf => cases hsame

/-- The nodes decide their links. -/
theorem Paired.unique {ns ms ms' : List Node} (h : Paired ns ms) (h' : Paired ns ms') : ms = ms' := by
  have hkept : ms.map Node.unlinked = ms'.map Node.unlinked := h.kept.trans h'.kept.symm
  have hlength : ms.length = ms'.length := by simpa using congrArg List.length hkept
  refine List.ext_getElem hlength fun place hplace hplace' => ?_
  have hm := List.getElem?_eq_getElem hplace
  obtain ⟨m', hm', hsame⟩ := exists_of_map_unlinked hkept hm
  rw [List.getElem?_eq_getElem hplace'] at hm'
  cases hm'
  exact h.eq_of_unlinked h' hm (List.getElem?_eq_getElem hplace') hsame.symm

theorem link_eq_ok_iff_paired (block : String) (ns ms : List Node) :
    link block ns = .ok ms ↔ WellNested ns ∧ Paired ns ms := by
  rw [link_eq_ok_iff]
  constructor
  · intro hlinked
    exact ⟨hlinked.wellNested, hlinked.paired⟩
  · rintro ⟨hnested, hpaired⟩
    obtain ⟨ms', hlinked⟩ := hnested.exists_linked 0
    rwa [hpaired.unique hlinked.paired]

/-! ## The first node that breaks the nesting -/

/-- Nodes can be continued exactly if no node has broken the nesting. -/
theorem continues_iff {ns : List Node} : Continues ns ↔ ∃ opened, Inside ns opened := by
  constructor
  · rintro ⟨rest, hnested⟩
    rcases inside_or_breaks "" ns with hinside | ⟨before, n, after, fault, rfl, hbreaks⟩
    · exact hinside
    · obtain ⟨ms, hms⟩ := (exists_link_iff "" _).2 hnested
      rw [List.append_assoc, List.cons_append, hbreaks.link_eq] at hms
      cases hms
  · rintro ⟨opened, hinside⟩
    induction opened generalizing ns with
    | nil =>
      cases hinside with
      | outside hns => exact ⟨[], by simpa using hns⟩
    | cons b outer ih =>
      obtain ⟨rest, hrest⟩ := ih (hinside.close 0)
      exact ⟨_, by rwa [List.append_assoc] at hrest⟩

/-- The node that breaks the nesting is the first after which nothing makes the nodes well nested. -/
theorem Breaks.is_first {block : String} {before : List Node} {n : Node} {fault : Fault}
    (h : Breaks block before n fault) : Continues before ∧ ¬Continues (before ++ [n]) := by
  constructor
  · rw [continues_iff]
    cases h with
    | unexpectedEnd hinside => exact ⟨_, hinside⟩
    | elseWithoutIf hinside => exact ⟨_, hinside⟩
    | duplicateElse hinside => exact ⟨_, hinside⟩
  · rintro ⟨rest, hnested⟩
    obtain ⟨ms, hms⟩ := (exists_link_iff block _).2 hnested
    rw [List.append_assoc, List.singleton_append, h.link_eq] at hms
    cases hms

/-- **Which nodes can be linked, and how.**  Exactly the well-nested ones can.  The links are then those to the
partners of every branch, which the nodes alone decide; nothing else has changed, and linking again changes nothing.
Otherwise the fault is that of the first node after which nothing makes the nodes well nested; if there is no such
node, branches are left open. -/
theorem link_iff_wellNested (block : String) (ns : List Node) :
    ((∃ ms, link block ns = .ok ms) ↔ WellNested ns) ∧
    (∀ ms, link block ns = .ok ms ↔ WellNested ns ∧ Paired ns ms) ∧
    (∀ ms, link block ns = .ok ms → link block ms = .ok ms) ∧
    ∀ fault, link block ns = .error fault ↔
      (∃ before n after, ns = before ++ n :: after ∧ Continues before ∧ ¬Continues (before ++ [n]) ∧
        Breaks block before n fault) ∨
      Continues ns ∧ ∃ opened, Inside ns opened ∧ opened ≠ [] ∧ fault = .unclosedIf block opened.length := by
  refine ⟨exists_link_iff block ns, link_eq_ok_iff_paired block ns, ?_, ?_⟩
  · intro ms hms
    rw [link_eq_ok_iff] at hms ⊢
    exact hms.again
  · intro fault
    constructor
    · intro hfault
      rcases inside_or_breaks block ns with ⟨opened, hinside⟩ | ⟨before, n, after, fault', rfl, hbreaks⟩
      · have hne : opened ≠ [] := by
          rintro rfl
          cases hinside with
          | outside hns =>
            obtain ⟨ms, hms⟩ := (exists_link_iff block ns).2 hns
            rw [hfault] at hms
            cases hms
        rw [hinside.link_eq hne] at hfault
        exact .inr ⟨continues_iff.2 ⟨opened, hinside⟩, opened, hinside, hne, (Except.error.inj hfault).symm⟩
      · rw [hbreaks.link_eq] at hfault
        cases hfault
        exact .inl ⟨before, n, after, rfl, hbreaks.is_first.1, hbreaks.is_first.2, hbreaks⟩
    · rintro (⟨before, n, after, rfl, -, -, hbreaks⟩ | ⟨-, opened, hinside, hne, rfl⟩)
      · exact hbreaks.link_eq after
      · exact hinside.link_eq hne block

/-- A branch in the first part of another, with links that lead nowhere. -/
def crossing : List Node :=
  [⟨0, .branch (.var "x") (some 9) none⟩, ⟨1, .branch (.var "y") none (some 0)⟩, ⟨2, .plain .ret⟩, ⟨3, .endIf⟩,
    ⟨3, .otherwise none⟩, ⟨4, .plain .ret⟩, ⟨5, .endIf⟩]

/-- The same nodes with their links. -/
def crossingLinked : List Node :=
  [⟨0, .branch (.var "x") (some 4) (some 6)⟩, ⟨1, .branch (.var "y") none (some 3)⟩, ⟨2, .plain .ret⟩, ⟨3, .endIf⟩,
    ⟨3, .otherwise (some 6)⟩, ⟨4, .plain .ret⟩, ⟨5, .endIf⟩]

theorem link_crossing :
    link "Main" crossing = .ok crossingLinked ∧ WellNested crossing ∧ Paired crossing crossingLinked ∧
    link "Main" crossingLinked = .ok crossingLinked ∧
    ∃ before n after, crossing ++ [⟨5, .endIf⟩] = before ++ n :: after ∧
      Breaks "Main" before n (.unexpectedEnd "Main" 7) := by
  have hlink : link "Main" crossing = .ok crossingLinked := rfl
  have hfault : link "Main" (crossing ++ [⟨5, .endIf⟩]) = .error (.unexpectedEnd "Main" 7) := rfl
  obtain ⟨-, hpairs, hagain, -⟩ := link_iff_wellNested "Main" crossing
  obtain ⟨hnested, hpaired⟩ := (hpairs _).1 hlink
  refine ⟨hlink, hnested, hpaired, hagain _ hlink, ?_⟩
  rcases ((link_iff_wellNested "Main" _).2.2.2 _).1 hfault with
    ⟨before, n, after, hnodes, -, -, hbreaks⟩ | ⟨-, opened, -, -, hopen⟩
  · exact ⟨before, n, after, hnodes, hbreaks⟩
  · cases hopen

end SceneScript.Block
