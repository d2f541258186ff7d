import SceneScript.Proofs.Block.Acceptance
import SceneScript.Proofs.Compile
import SceneScript.Proofs.Outline.Parts

/-!
# Where faults come from

Every pass of the compiler has faults of its own, and three faults belong to no pass: they stand for what the
passes promise each other.  Following a script through the passes shows that these never arise, that blocks with
one name are found before they are placed and missing arguments before nodes are made, and that the only thing
left to fail when the code is emitted is an entry of a block that was not declared.

    (compile lang source).result = .error fault → fault.pass ≠ .internal       (pass_of_compile)
-/

namespace SceneScript

/-- What a fault comes from. -/
inductive Pass where
  | expression
  | arguments
  | statement
  | outline
  | nesting
  | resolution
  | directive
  /-- One pass does not keep what another relies on. -/
  | internal
deriving DecidableEq

def Fault.pass : Fault → Pass
  | invalidExpr _ _ => .expression
  | unbalancedBracket _ | unterminatedQuote _ => .arguments
  | unrecognizedKeyword _ | unknownKeyword _ _ | wrongArgumentCount _ _ _ _ => .statement
  | unterminatedSection _ | mismatchedSectionEnd _ _ | duplicateBlock _ => .outline
  | unexpectedEnd _ _ | elseWithoutIf _ _ | duplicateElse _ _ | unclosedIf _ _ => .nesting
  | noSuchBlock _ => .resolution
  | noSuchDirective _ | missingDirectiveArgument _ => .directive
  | unlinkedBranch _ _ | destinationOutOfRange _ _ _ _ | markerEmitted _ _ => .internal

/-! ## Statements and their nodes -/

theorem Expr.pass_of_parse {sym : Symbols} {text : String} {fault : Fault} (h : parse sym text = .error fault) :
    fault.pass = .expression := by
  unfold parse at h
  simp only at h
  split at h
  · cases h
    rfl
  · cases h

theorem SplitFault.pass_inText (text : List Char) (fault : SplitFault) : (fault.inText text).pass = .arguments := by
  cases fault <;> rfl

theorem Call.pass_of_parse {sym : Symbols} {text : String} {fault : Fault} (h : parse sym text = .error fault) :
    fault.pass = .arguments := by
  unfold parse at h
  simp only at h
  split at h
  · cases h
  · split at h
    · split at h
      · cases h
      · split at h
        · cases h
          exact SplitFault.pass_inText _ _
        · cases h
    · cases h
      rfl
  · cases h
    rfl

namespace Statement

theorem argument_eq_error_iff {s : Statement} {fault : Fault} :
    s.argument = .error fault ↔ s.args = [] ∧ fault = .wrongArgumentCount s.keyword.name 1 0 s.line := by
  unfold argument
  cases s.args <;> simp [eq_comm]

/-- A statement whose keyword takes an argument lacks it. -/
def LacksArgument (s : Statement) : Prop := s.keyword.arity = .single ∧ s.args = []

theorem error_of_argument {s : Statement} {f : String → Except Fault NodeKind} {fault : Fault}
    (h : (match s.argument with
      | .error fault => Except.error fault
      | .ok text => f text) = .error fault) : s.args = [] ∨ ∃ text, f text = .error fault := by
  cases harg : s.argument with
  | error fault' => exact .inl (argument_eq_error_iff.1 harg).1
  | ok text => exact .inr ⟨text, by simpa [harg] using h⟩

/-- Unless it lacks an argument, a statement fails to give a node only for what stands in its argument. -/
theorem pass_of_node {sym : Symbols} {s : Statement} {fault : Fault} (h : s.node sym = .error fault) :
    s.LacksArgument ∨ fault.pass = .expression ∨ fault.pass = .arguments := by
  unfold node at h
  cases hk : s.keyword with
  | otherwise | endIf | ret | stop | unbind =>
    rw [hk] at h
    cases h
  | yield =>
    rw [hk] at h
    cases hargs : s.args with
    | nil =>
      rw [hargs] at h
      cases h
    | cons text rest =>
      rw [hargs] at h
      exact .inr (.inl (Expr.pass_of_parse (map_eq_error_iff.1 h)))
  | ifThen | compute =>
    rw [hk] at h
    rcases error_of_argument h with hargs | ⟨text, h⟩
    · exact .inl ⟨by rw [hk]; rfl, hargs⟩
    · exact .inr (.inl (Expr.pass_of_parse (map_eq_error_iff.1 h)))
  | action =>
    rw [hk] at h
    rcases error_of_argument h with hargs | ⟨text, h⟩
    · exact .inl ⟨by rw [hk]; rfl, hargs⟩
    · exact .inr (.inr (Call.pass_of_parse (map_eq_error_iff.1 h)))
  | entry | bind =>
    rw [hk] at h
    rcases error_of_argument h with hargs | ⟨text, h⟩
    · exact .inl ⟨by rw [hk]; rfl, hargs⟩
    · cases h

theorem pass_of_parse {lang : Language} {line : String} {fault : Fault} (h : parse lang line = .error fault) :
    fault.pass = .statement := by
  unfold parse at h
  split at h
  · cases h
    rfl
  · split at h
    · cases h
    · split at h
      · simp only at h
        split at h
        · cases h
          rfl
        · split at h
          · cases h
            rfl
          · split at h
            · cases h
            · cases h
              rfl
      · cases h
        rfl

/-- A line that can be read gives its statement the argument that the keyword takes. -/
theorem not_lacksArgument_of_parse {lang : Language} {line : String} {s : Statement}
    (h : parse lang line = .ok s) : ¬s.LacksArgument := by
  rintro ⟨harity, hargs⟩
  unfold parse at h
  split at h
  · cases h
  · split at h
    · cases h
      cases hargs
    · split at h
      · simp only at h
        split at h
        · cases h
        · split at h
          · cases h
          · next keyword _ =>
            split at h
            · next args htake =>
              cases h
              simp only at harity hargs
              rw [harity, hargs, takeArguments] at htake
              split at htake
              · cases htake
              · simp at htake
            · cases h
      · cases h

end Statement

/-! ## Outlines and the blocks of scripts -/

namespace Outline

theorem pass_of_ofLines {sym : Symbols} {lines : List String} {fault : Fault} (h : ofLines sym lines = .error fault) :
    fault.pass = .outline := by
  rcases ofLines_eq_error_iff.1 h with ⟨before, line, after, -, hoffends⟩ | ⟨p, -, rfl⟩
  · cases hoffends <;> rfl
  · rfl

/-- The declared names of a script: the main one and those of its sections. -/
def declared (o : Outline) : List String := mainName :: o.sections.map Section.name

theorem nodup_declared {sym : Symbols} {lines : List String} {o : Outline} (h : ofLines sym lines = .ok o) :
    o.declared.Nodup := by
  obtain ⟨d, -, rfl⟩ := ofLines_eq_ok_iff.1 h
  rw [declared, List.nodup_cons]
  exact ⟨d.not_main, d.nodup⟩

end Outline

section

variable {lang : Language} {main : List String} {sections : List Section} {blocks : List Block} {fault : Fault}

theorem Section.pass_of_block {s : Section} (h : s.block lang = .error fault) : fault.pass = .statement := by
  obtain ⟨line, -, hline⟩ := exists_of_collect_eq_error (map_eq_error_iff.1 h)
  exact Statement.pass_of_parse hline

theorem pass_of_scriptBlocks (h : scriptBlocks lang main sections = .error fault) : fault.pass = .statement := by
  unfold scriptBlocks at h
  cases hmain : Statement.parseAll lang main with
  | error fault' =>
    rw [hmain] at h
    cases h
    obtain ⟨line, -, hline⟩ := exists_of_collect_eq_error hmain
    exact Statement.pass_of_parse hline
  | ok statements =>
    rw [hmain] at h
    obtain ⟨s, -, hs⟩ := exists_of_collect_eq_error (map_eq_error_iff.1 h)
    exact Section.pass_of_block hs

/-- What a statement of a script is: a line, or the stop that is added. -/
def Statement.IsOf (lang : Language) (s : Statement) : Prop :=
  s = .implied .stop ∨ ∃ line, parse lang line = .ok s

theorem Statement.isOf_of_parseAll {lines : List String} {statements : List Statement}
    (h : parseAll lang lines = .ok statements) : ∀ s ∈ statements, s.IsOf lang := by
  intro s hs
  have hall := (collect_eq_ok_iff _ _ _).1 h
  have hok : Except.ok s ∈ lines.map (parse lang) := by
    rw [hall]
    exact List.mem_map_of_mem hs
  obtain ⟨line, -, hline⟩ := List.mem_map.1 hok
  exact .inr ⟨line, hline⟩

theorem Block.isOf_endingWith {b : Block} (h : ∀ s ∈ b.statements, s.IsOf lang) :
    ∀ s ∈ (b.endingWith .stop).statements, s.IsOf lang := by
  unfold endingWith
  split
  · exact h
  · intro s hs
    rcases List.mem_append.1 hs with hs | hs
    · exact h s hs
    · exact .inl (List.mem_singleton.1 hs)

theorem isOf_of_scriptBlocks (h : scriptBlocks lang main sections = .ok blocks) :
    ∀ b ∈ blocks, ∀ s ∈ b.statements, s.IsOf lang := by
  unfold scriptBlocks at h
  cases hmain : Statement.parseAll lang main with
  | error fault' => simp [hmain] at h
  | ok statements =>
    rw [hmain] at h
    obtain ⟨rest, hrest, rfl⟩ := map_eq_ok_iff.1 h
    intro b hb
    rcases List.mem_cons.1 hb with rfl | hb
    · exact Block.isOf_endingWith (Statement.isOf_of_parseAll hmain)
    · have hok : Except.ok b ∈ sections.map (Section.block lang) := by
        rw [(collect_eq_ok_iff _ _ _).1 hrest]
        exact List.mem_map_of_mem hb
      obtain ⟨s, -, hs⟩ := List.mem_map.1 hok
      obtain ⟨statements, hstatements, rfl⟩ := map_eq_ok_iff.1 hs
      exact Statement.isOf_of_parseAll hstatements

theorem Statement.IsOf.not_lacksArgument {s : Statement} (h : s.IsOf lang) : ¬s.LacksArgument := by
  rcases h with rfl | ⟨line, hline⟩
  · rintro ⟨harity, -⟩
    cases harity
  · exact not_lacksArgument_of_parse hline

/-- A statement of a script fails to give a node only for what stands in its argument. -/
theorem Statement.IsOf.pass_of_node {sym : Symbols} {s : Statement} (h : s.IsOf lang)
    (hnode : s.node sym = .error fault) : fault.pass = .expression ∨ fault.pass = .arguments :=
  (Statement.pass_of_node hnode).resolve_left h.not_lacksArgument

end

/-! ## Placing and emitting -/

namespace Block

theorem pass_of_linkFrom {block : String} {opened : List (Option Nat)} {position : Nat} {ns : List Node}
    {fault : Fault} (h : linkFrom block opened position ns = .error fault) : fault.pass = .nesting := by
  fun_induction linkFrom block opened position ns
  -- the nodes are linked
  case case1 | case4 | case5 | case9 | case12 | case14 => cases h
  -- a fault of this node
  case case2 | case6 | case7 | case10 =>
    cases h
    rfl
  -- a fault of the nodes after it
  case case3 hrest ih | case8 hrest ih | case11 hrest ih | case13 hrest ih =>
    cases h
    exact ih hrest

/-- A block has no nodes because a statement has none or because its branches are not well nested. -/
theorem error_of_nodes {sym : Symbols} {b : Block} {fault : Fault} (h : b.nodes sym = .error fault) :
    (∃ s ∈ b.statements, s.node sym = .error fault) ∨ fault.pass = .nesting := by
  unfold nodes at h
  cases hk : collect (Statement.node sym) b.statements with
  | error fault' =>
    rw [hk] at h
    cases h
    exact .inl (exists_of_collect_eq_error hk)
  | ok kinds =>
    simp only [hk] at h
    exact .inr (pass_of_linkFrom (map_eq_error_iff.1 h))

/-- Blocks with different names cannot be placed only because one of them has no nodes. -/
theorem error_of_placeFrom {sym : Symbols} {blocks : List Block} {fault : Fault} :
    ∀ {table : BlockTable} {offset : Nat}, (blocks.map Block.name).Nodup →
      (∀ b ∈ blocks, table.find? b.name = none) →
      placeFrom sym table offset blocks = .error fault → ∃ b ∈ blocks, b.nodes sym = .error fault := by
  induction blocks with
  | nil =>
    intro table offset _ _ h
    cases h
  | cons b blocks ih =>
    intro table offset hnodup hnone h
    rw [List.map_cons, List.nodup_cons] at hnodup
    rw [placeFrom] at h
    cases hnodes : b.nodes sym with
    | error fault' =>
      rw [hnodes] at h
      cases h
      exact ⟨b, List.mem_cons_self, hnodes⟩
    | ok ns =>
      simp only [hnodes, hnone b List.mem_cons_self, Option.isSome_none, Bool.false_eq_true, if_false] at h
      have hrest := BlockTable.find?_insert_of_not_mem ⟨offset, ns.length⟩ hnodup.1
        fun b' hb' => hnone b' (List.mem_cons_of_mem _ hb')
      split at h
      · next fault' hfault =>
        cases h
        obtain ⟨b', hb', herror⟩ := ih hnodup.2 hrest hfault
        exact ⟨b', List.mem_cons_of_mem _ hb', herror⟩
      · cases h

end Block

theorem Directive.pass_of_applyAll {lang : Language} {ds : List Directive} {p q : Program} {fault : Fault}
    (h : applyAll lang p ds = (q, some fault)) : fault.pass = .directive := by
  induction ds generalizing p with
  | nil => cases h
  | cons d ds ih =>
    rw [applyAll] at h
    cases happly : apply lang p d with
    | ok p' =>
      rw [happly] at h
      exact ih h
    | error fault' =>
      rw [happly] at h
      cases h
      unfold apply at happly
      split at happly <;> cases happly <;> rfl

/-! ## Compiled scripts -/

section

variable {lang : Language} {lines : List String} {o : Outline} {blocks : List Block}

theorem names_of_scriptBlocks
    (h : scriptBlocks lang (Directive.separate lang.symbols o.rest).2 o.sections = .ok blocks) :
    blocks.map Block.name = o.declared := by
  obtain ⟨b, rest, rfl, -, hname, hnames⟩ := scriptBlocks_cases h
  rw [List.map_cons, hname, hnames, Outline.declared]

/-- The blocks of a script cannot be placed only because of what stands in an argument or because branches
are not well nested. -/
theorem pass_of_place {sym : Symbols} (ho : Outline.ofLines sym lines = .ok o)
    (hblocks : scriptBlocks lang (Directive.separate lang.symbols o.rest).2 o.sections = .ok blocks) {fault : Fault}
    (h : Block.place sym .empty blocks = .error fault) :
    fault.pass = .expression ∨ fault.pass = .arguments ∨ fault.pass = .nesting := by
  have hnodup : (blocks.map Block.name).Nodup := by
    rw [names_of_scriptBlocks hblocks]
    exact Outline.nodup_declared ho
  obtain ⟨b, hb, hnodes⟩ := Block.error_of_placeFrom hnodup (fun _ _ => rfl) h
  rcases Block.error_of_nodes hnodes with ⟨s, hs, hnode⟩ | hnesting
  · have := (isOf_of_scriptBlocks hblocks b hb s hs).pass_of_node hnode
    rcases this with h | h
    · exact .inl h
    · exact .inr (.inl h)
  · exact .inr (.inr hnesting)

end

/-- Some statement enters a block of another name if and only if there is a first one. -/
theorem exists_undeclared_iff {blocks : List Block} {names : List String} :
    (∃ b ∈ blocks, ∃ s ∈ b.statements, ∃ name, s.target? = some name ∧ name ∉ names) ↔
      ∃ name, (blocks.flatMap Block.targets).find? (fun name => name ∉ names) = some name := by
  rw [← Option.isSome_iff_exists, List.find?_isSome]
  simp only [List.mem_flatMap, Block.targets, List.mem_filterMap, decide_eq_true_eq]
  constructor
  · rintro ⟨b, hb, s, hs, name, htarget, hname⟩
    exact ⟨name, ⟨b, hb, s, hs, htarget⟩, hname⟩
  · rintro ⟨name, ⟨b, hb, s, hs, htarget⟩, hname⟩
    exact ⟨b, hb, s, hs, name, htarget, hname⟩

/-- No fault of a script is one that belongs to no pass. -/
theorem pass_of_compile {lang : Language} {source : String} {fault : Fault}
    (h : (compile lang source).result = .error fault) : fault.pass ≠ .internal := by
  unfold compile compileLines at h
  cases ho : Outline.ofLines lang.symbols (Line.normalize lang.symbols.comment source) with
  | error fault' =>
    rw [ho] at h
    cases h
    rw [Outline.pass_of_ofLines ho]
    decide
  | ok o =>
    simp only [ho, Outline.compile] at h
    cases hblocks : scriptBlocks lang (Directive.separate lang.symbols o.rest).2 o.sections with
    | error fault' =>
      rw [hblocks] at h
      cases h
      rw [pass_of_scriptBlocks hblocks]
      decide
    | ok blocks =>
      simp only [hblocks, Program.ofBlocks] at h
      cases hplace : Block.place lang.symbols .empty blocks with
      | error fault' =>
        rw [hplace] at h
        cases h
        rcases pass_of_place ho hblocks hplace with hpass | hpass | hpass <;> simp [hpass]
      | ok out =>
        obtain ⟨placed, table⟩ := out
        simp only [hplace] at h
        cases hemit : PlacedBlock.emit .endless table placed with
        | error fault' =>
          rw [hemit] at h
          cases h
          obtain ⟨name, -, rfl⟩ := (emit_eq_error_iff hplace _).1 hemit
          simp [Fault.pass]
        | ok code =>
          simp only [hemit, Except.map] at h
          split at h
          · cases h
          · next happly =>
            cases h
            rw [Directive.pass_of_applyAll happly]
            decide

/-- **Which faults a script can lead to.**  None belongs to no pass; no statement of a script lacks an argument
when its node is made; the blocks of a script have different names when they are placed; and what is emitted fails
exactly if a statement enters a block that was not declared, with the first such name. -/
theorem compile_faults (lang : Language) (source : String) :
    (∀ block index destination total,
      (compile lang source).result ≠ .error (.unlinkedBranch block index) ∧
      (compile lang source).result ≠ .error (.markerEmitted block index) ∧
      (compile lang source).result ≠ .error (.destinationOutOfRange block index destination total)) ∧
    (∀ s : Statement, s = .implied .stop ∨ (∃ line, Statement.parse lang line = .ok s) →
      ∀ keyword expected found line,
        s.node lang.symbols ≠ .error (.wrongArgumentCount keyword expected found line)) ∧
    ∀ o blocks, Outline.ofLines lang.symbols (Line.normalize lang.symbols.comment source) = .ok o →
      scriptBlocks lang (Directive.separate lang.symbols o.rest).2 o.sections = .ok blocks →
      (∀ name, Block.place lang.symbols .empty blocks ≠ .error (.duplicateBlock name)) ∧
      ∀ placed table, Block.place lang.symbols .empty blocks = .ok (placed, table) →
        ((∃ fault, PlacedBlock.emit .endless table placed = .error fault) ↔
          ∃ b ∈ blocks, ∃ s ∈ b.statements, ∃ name,
            s.target? = some name ∧ name ∉ mainName :: o.sections.map Section.name) ∧
        ∀ fault, PlacedBlock.emit .endless table placed = .error fault →
          ∃ name, (blocks.flatMap Block.targets).find?
              (fun name => name ∉ mainName :: o.sections.map Section.name) = some name ∧
            fault = .noSuchBlock name := by
  refine ⟨?_, ?_, ?_⟩
  · intro block index destination total
    refine ⟨?_, ?_, ?_⟩ <;> exact fun h => pass_of_compile h rfl
  · intro s hs keyword expected found line hnode
    rcases Statement.IsOf.pass_of_node hs hnode with h | h <;> cases h
  · intro o blocks ho hblocks
    refine ⟨?_, ?_⟩
    · intro name hplace
      rcases pass_of_place ho hblocks hplace with h | h | h <;> cases h
    · intro placed table hplace
      have hnames : blocks.map Block.name = mainName :: o.sections.map Section.name :=
        names_of_scriptBlocks hblocks
      have hfault := emit_eq_error_iff hplace
      rw [hnames] at hfault
      refine ⟨?_, fun fault => (hfault fault).1⟩
      rw [exists_undeclared_iff]
      constructor
      · rintro ⟨fault, hemit⟩
        obtain ⟨name, hname, -⟩ := (hfault fault).1 hemit
        exact ⟨name, hname⟩
      · rintro ⟨name, hname⟩
        exact ⟨.noSuchBlock name, (hfault _).2 ⟨name, hname, rfl⟩⟩

/-- Two missing blocks, one in a section that comes after the main block. -/
def stray : String := ":entry Lane\n:if @late\n:entry Nowhere\n:end\nLane:\n:entry Elsewhere\nend Lane"

/-- The blocks of that script. -/
def strayBlocks : List Block :=
  [⟨"Main", [⟨.entry, ["Lane"], ":entry Lane"⟩, ⟨.ifThen, ["@late"], ":if @late"⟩,
      ⟨.entry, ["Nowhere"], ":entry Nowhere"⟩, ⟨.endIf, [], ":end"⟩, .implied .stop]⟩,
    ⟨"Lane", [⟨.entry, ["Elsewhere"], ":entry Elsewhere"⟩]⟩]

theorem compile_faults_stray :
    ∃ o placed table,
      Outline.ofLines .english (Line.normalize '#' stray) = .ok o ∧
      scriptBlocks .english (Directive.separate .english o.rest).2 o.sections = .ok strayBlocks ∧
      Block.place .english .empty strayBlocks = .ok (placed, table) ∧
      (∃ fault, PlacedBlock.emit .endless table placed = .error fault) ∧
      ∀ fault, PlacedBlock.emit .endless table placed = .error fault → fault = .noSuchBlock "Nowhere" := by
  have ho : Outline.ofLines .english (Line.normalize '#' stray) = .ok ⟨[⟨"Lane", [":entry Elsewhere"]⟩],
      [":entry Lane", ":if @late", ":entry Nowhere", ":end"], []⟩ := by decide +kernel
  have hblocks : scriptBlocks .english (Directive.separate .english
      [":entry Lane", ":if @late", ":entry Nowhere", ":end"]).2 [⟨"Lane", [":entry Elsewhere"]⟩] =
        .ok strayBlocks := by decide +kernel
  have haccepted : ∃ placed table, Block.place .english .empty strayBlocks = .ok (placed, table) := ⟨_, _, rfl⟩
  obtain ⟨placed, table, hplace⟩ := haccepted
  obtain ⟨hfails, hfirst⟩ := ((compile_faults .english stray).2.2 _ _ ho hblocks).2 placed table hplace
  refine ⟨_, placed, table, ho, hblocks, hplace, hfails.2 ?_, ?_⟩
  · exact ⟨_, List.mem_cons_self, _, List.mem_cons_of_mem _ (List.mem_cons_of_mem _ List.mem_cons_self), "Nowhere",
      rfl, by decide⟩
  · intro fault hfault
    obtain ⟨name, hname, rfl⟩ := hfirst fault hfault
    exact congrArg Fault.noSuchBlock (Option.some.inj hname).symm

end SceneScript
