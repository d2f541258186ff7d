import SceneScript.Proofs.Compile
import SceneScript.Proofs.Render.Script

/-!
# Compiling what is written

A text that holds the lines of a script, with any indentation, empty lines, trailing blanks and comments, is
read as that script: the same declarations, the same blocks with the nodes of the same clauses, and no
warning.  What it compiles to depends on the script only, not on the language.

    Renders lang items source → Renders lang' items source' →
      compile lang source = compile lang' source'                    (compile_rendered)
-/

namespace SceneScript

/-! ## Blocks with the same nodes -/

/-- The name of the block and the nodes of its statements. -/
def Block.reading (sym : Symbols) (b : Block) : String × Except Fault (List NodeKind) :=
  (b.name, collect (Statement.node sym) b.statements)

theorem Block.placeFrom_congr {sym sym' : Symbols} {bs bs' : List Block}
    (h : bs.map (reading sym) = bs'.map (reading sym')) (table : BlockTable) (offset : Nat) :
    placeFrom sym table offset bs = placeFrom sym' table offset bs' := by
  induction bs generalizing bs' table offset with
  | nil =>
    obtain rfl := List.map_eq_nil_iff.1 h.symm
    rfl
  | cons b bs ih =>
    obtain ⟨b', bs', rfl, hb, hbs⟩ := List.map_eq_cons_iff.1 h.symm
    obtain ⟨hname, hstatements⟩ := Prod.mk.inj hb
    have hnodes : b.nodes sym = b'.nodes sym' := by rw [Block.nodes, Block.nodes, hname, hstatements]
    rw [placeFrom, placeFrom, hnodes, hname]
    cases b'.nodes sym' with
    | error fault => rfl
    | ok nodes => simp only [ih hbs.symm]

theorem Program.ofBlocks_congr {sym sym' : Symbols} {bs bs' : List Block}
    (h : bs.map (Block.reading sym) = bs'.map (Block.reading sym')) :
    ofBlocks sym bs = ofBlocks sym' bs' := by
  rw [ofBlocks, ofBlocks, Block.place, Block.place, Block.placeFrom_congr h]

namespace Item

/-- The clauses with a stop at their end. -/
def stopped (cs : List Clause) : List Clause :=
  if cs.getLast?.map Clause.keyword = some .stop then cs else cs ++ [.stop]

/-- All blocks of a script, the main one first. -/
def allBlocks (items : List Item) : List (String × List Clause) :=
  (mainName, stopped (main items)) :: blocks items

/-- The text holds the lines of the script, and maybe lines without content. -/
def Renders (lang : Language) (items : List Item) (source : String) : Prop :=
  ∃ pieces contents, pieces ≠ [] ∧
    List.Forall₂ (Line.Carries lang.symbols.comment) pieces contents ∧
    contents.filter (!·.isEmpty) = items.flatMap (lines lang) ∧
    source.toList = ['\n'].intercalate pieces

section

variable {lang : Language}

/-! ## Lines -/

theorem visible_spaced {w : List Char} (hw : Text.Visible w) {ws : List String} (hws : ∀ a ∈ ws, IsName a) :
    Text.Visible (w ++ ws.flatMap fun a => ' ' :: a.toList) := by
  induction ws generalizing w with
  | nil => simpa using hw
  | cons a ws ih =>
    have hwa := hw.between Text.Clear.space (hws a List.mem_cons_self).visible
    simpa using ih hwa fun b hb => hws b (List.mem_cons_of_mem _ hb)

theorem visible_lines (hlang : lang.InUse) {i : Item} (h : i.IsWritable) :
    ∀ line ∈ i.lines lang, Text.Visible line := by
  have hkeyword : Text.Visible [lang.symbols.keyword] := hlang.symbols.visible (by simp [Symbols.marks])
  have hdirective : Text.Visible [lang.symbols.directive] := hlang.symbols.visible (by simp [Symbols.marks])
  intro line hline
  cases i with
  | declaration d =>
    obtain rfl := List.mem_singleton.1 hline
    have hword := (directiveWord_facts hlang d.kind).2.visible
    simpa [Declaration.line] using visible_spaced (hdirective.between Text.Clear.nil hword) h.2
  | clause c =>
    obtain rfl := List.mem_singleton.1 hline
    exact Clause.visible_line hlang h
  | block name clauses =>
    simp only [lines, List.mem_cons, List.mem_append, List.mem_map, List.not_mem_nil, or_false] at hline
    rcases hline with rfl | ⟨c, hc, rfl⟩ | rfl
    · exact h.1.visible.between Text.Clear.nil hkeyword
    · exact Clause.visible_line hlang (h.2 c hc)
    · exact (hlang.isName List.mem_cons_self).visible.between Text.Clear.space h.1.visible

theorem normalize_of_renders (hlang : lang.InUse) {items : List Item} (h : AreWritable items)
    {source : String} (hsource : Renders lang items source) :
    Line.normalize lang.symbols.comment source = (items.flatMap (lines lang)).map String.ofList := by
  obtain ⟨pieces, contents, hne, hcarries, hcontents, hsource⟩ := hsource
  have hcomment : lang.symbols.comment = '#' := by rcases hlang with rfl | rfl <;> rfl
  rw [hcomment] at hcarries ⊢
  rw [← hcontents]
  refine Line.normalize_of_carries (by decide) hne hcarries ?_ hsource
  intro content hcontent
  by_cases hempty : content = []
  · subst hempty
    exact ⟨Text.solid_nil, by simp, by simp⟩
  · have hmem : content ∈ contents.filter (!·.isEmpty) := by simp [hcontent, hempty]
    rw [hcontents, List.mem_flatMap] at hmem
    obtain ⟨i, hi, hline⟩ := hmem
    have hvisible := visible_lines hlang (h.each i hi) content hline
    refine ⟨hvisible.solid, fun hc => ?_, fun hc => ?_⟩
    · exact hvisible.clear _ hc (by simp)
    · exact hvisible.clear _ hc (by simp)

/-! ## Blocks -/

/-- A block as it is read. -/
def blockOf (lang : Language) (b : String × List Clause) : Block := ⟨b.1, b.2.map (Clause.statement lang)⟩

theorem parseAll_lines (hlang : lang.InUse) {cs : List Clause} (h : ∀ c ∈ cs, c.IsWritable) :
    Statement.parseAll lang (cs.map fun c => String.ofList (c.line lang)) =
      .ok (cs.map (Clause.statement lang)) := by
  rw [Statement.parseAll, collect_eq_ok_iff, List.map_map, List.map_map]
  exact List.map_congr_left fun c hc => Clause.parse_line hlang (h c hc)

theorem nodes_statements (hlang : lang.InUse) {cs : List Clause} (h : ∀ c ∈ cs, c.IsWritable) :
    collect (Statement.node lang.symbols) (cs.map (Clause.statement lang)) = .ok (cs.map Clause.node) := by
  rw [collect_eq_ok_iff, List.map_map, List.map_map]
  exact List.map_congr_left fun c hc => Clause.node_statement hlang (h c hc)

theorem nodes_endingWith (hlang : lang.InUse) {cs : List Clause} (h : ∀ c ∈ cs, c.IsWritable) :
    collect (Statement.node lang.symbols) ((blockOf lang (mainName, cs)).endingWith .stop).statements =
      .ok ((stopped cs).map Clause.node) := by
  have hlast : ((cs.map (Clause.statement lang)).getLast?.map Statement.keyword) =
      cs.getLast?.map Clause.keyword := by
    rw [List.getLast?_map, Option.map_map]
    rfl
  unfold Block.endingWith stopped
  simp only [blockOf, hlast]
  split
  · exact nodes_statements hlang h
  · have hstop : Statement.node lang.symbols (.implied .stop) = .ok Clause.stop.node := rfl
    have hnodes := (collect_eq_ok_iff _ _ _).1 (nodes_statements hlang h)
    rw [collect_eq_ok_iff, List.map_append, hnodes]
    simp [hstop]

/-- The blocks as they are read, the main one first. -/
def readBlocks (lang : Language) (items : List Item) : List Block :=
  (blockOf lang (mainName, main items)).endingWith .stop :: (blocks items).map (blockOf lang)

theorem mem_main {items : List Item} {c : Clause} : c ∈ main items ↔ .clause c ∈ items := by
  simp only [main, List.mem_filterMap]
  constructor
  · rintro ⟨i, hi, hc⟩
    cases i <;> cases hc
    exact hi
  · exact fun h => ⟨_, h, rfl⟩

theorem mem_declarations {items : List Item} {d : Declaration} :
    d ∈ declarations items ↔ .declaration d ∈ items := by
  simp only [declarations, List.mem_filterMap]
  constructor
  · rintro ⟨i, hi, hd⟩
    cases i <;> cases hd
    exact hi
  · exact fun h => ⟨_, h, rfl⟩

theorem mem_blocks {items : List Item} {b : String × List Clause} :
    b ∈ blocks items ↔ .block b.1 b.2 ∈ items := by
  simp only [blocks, List.mem_filterMap]
  constructor
  · rintro ⟨i, hi, hb⟩
    cases i <;> cases hb
    exact hi
  · exact fun h => ⟨_, h, rfl⟩

/-- **The blocks are read.** -/
theorem scriptBlocks_outline (hlang : lang.InUse) {items : List Item} (h : ∀ i ∈ items, i.IsWritable) :
    scriptBlocks lang ((main items).map fun c => String.ofList (c.line lang))
      (outline lang items).sections = .ok (readBlocks lang items) := by
  have hmain : ∀ c ∈ main items, c.IsWritable := fun c hc => h _ (mem_main.1 hc)
  have hsections : collect (Section.block lang) (outline lang items).sections =
      .ok ((blocks items).map (blockOf lang)) := by
    rw [collect_eq_ok_iff, outline, List.map_map, List.map_map]
    refine List.map_congr_left fun b hb => ?_
    have hb : ∀ c ∈ b.2, c.IsWritable := (h _ (mem_blocks.1 hb)).2
    simp only [Function.comp_apply, sectionOf, Section.block, parseAll_lines hlang hb]
    rfl
  rw [scriptBlocks, parseAll_lines hlang hmain, hsections]
  rfl

/-- **The blocks that are read have the names and the nodes of the script.** -/
theorem reading_readBlocks (hlang : lang.InUse) {items : List Item} (h : ∀ i ∈ items, i.IsWritable) :
    (readBlocks lang items).map (Block.reading lang.symbols) =
      (allBlocks items).map fun b => (b.1, .ok (b.2.map Clause.node)) := by
  have hmain : Block.reading lang.symbols ((blockOf lang (mainName, main items)).endingWith .stop) =
      (mainName, .ok ((stopped (main items)).map Clause.node)) := by
    rw [Block.reading, Block.name_endingWith, nodes_endingWith hlang fun c hc => h _ (mem_main.1 hc)]
    rfl
  rw [readBlocks, allBlocks, List.map_cons, List.map_cons, List.map_map, hmain]
  refine congrArg _ (List.map_congr_left fun b hb => ?_)
  exact congrArg _ (nodes_statements hlang (h _ (mem_blocks.1 hb)).2)

theorem compile_of_renders (hlang : lang.InUse) {items : List Item} (h : AreWritable items)
    {source : String} (hsource : Renders lang items source) :
    compile lang source =
      ⟨(Program.ofBlocks lang.symbols (readBlocks lang items)).map
        ((declarations items).foldl Declaration.apply), []⟩ := by
  have hdeclarations : ∀ d ∈ declarations items, d.IsWritable :=
    fun d hd => h.each _ (mem_declarations.1 hd)
  rw [compile, normalize_of_renders hlang h hsource, compileLines, ofLines_lines hlang h]
  simp only [Outline.compile, separate_rest hlang h.each, scriptBlocks_outline hlang h.each]
  cases Program.ofBlocks lang.symbols (readBlocks lang items) with
  | error fault => rfl
  | ok program =>
    simp only [applyAll_directives hlang hdeclarations]
    rfl

/-- **A written script is recovered, and compiles to the same outcome in both languages.** -/
theorem compile_rendered {lang' : Language} (hlang : lang.InUse) (hlang' : lang'.InUse)
    {items : List Item} (h : AreWritable items) {source source' : String}
    (hsource : Renders lang items source) (hsource' : Renders lang' items source') :
    (∃ o lines read,
      Outline.ofLines lang.symbols (Line.normalize lang.symbols.comment source) = .ok o ∧
      o.dropped = [] ∧
      Directive.separate lang.symbols o.rest =
        ((declarations items).map (Declaration.directive lang), lines) ∧
      scriptBlocks lang lines o.sections = .ok read ∧
      read.map (Block.reading lang.symbols) =
        (allBlocks items).map (fun b => (b.1, .ok (b.2.map Clause.node))) ∧
      compile lang source =
        ⟨(Program.ofBlocks lang.symbols read).map ((declarations items).foldl Declaration.apply), []⟩) ∧
    compile lang source = compile lang' source' := by
  have hcompile := compile_of_renders hlang h hsource
  have hreading := reading_readBlocks hlang h.each
  refine ⟨⟨outline lang items, _, readBlocks lang items, ?_, rfl, separate_rest hlang h.each,
    scriptBlocks_outline hlang h.each, hreading, hcompile⟩, ?_⟩
  · rw [normalize_of_renders hlang h hsource, ofLines_lines hlang h]
  · rw [hcompile, compile_of_renders hlang' h hsource',
      Program.ofBlocks_congr (hreading.trans (reading_readBlocks hlang' h.each).symm)]

/-- A script with a declaration, a branch and a block. -/
def visit : List Item :=
  [.declaration ⟨.input, ["guest"]⟩,
    .clause (.ifThen (.binary .lt (.var "guest") (.literal (.int 3)))),
    .block "hall" [.action ⟨"say", [.text "a = b", .int (-1)]⟩, .ret],
    .clause (.entry "hall"), .clause .endIf]

theorem areWritable_visit : AreWritable visit := by
  have hname : ∀ s ∈ ["guest", "hall", "say"], IsName s := by
    unfold IsName
    decide
  refine ⟨?_, by decide, by decide⟩
  simp [visit, IsWritable, Declaration.IsWritable, Clause.IsWritable, Call.IsWritable, Expr.IsWritable,
    Expr.IsOperand, Value.IsArgument, IsQuotable, hname]

/-- The lines as they are, but for blanks and a comment at the first and an empty line after it. -/
theorem renders_of_lines {items : List Item} {first : List Char} {rest : List (List Char)}
    (hlines : items.flatMap (lines lang) = first :: rest)
    (hline : ∀ line ∈ first :: rest, line ≠ [] ∧ '\n' ∉ line)
    (indent trailing note : List Char) (hindent : Text.AllBlank indent) (htrailing : Text.AllBlank trailing)
    (hbreak : '\n' ∉ indent ++ (trailing ++ lang.symbols.comment :: note)) {source : String}
    (hsource : source.toList = ['\n'].intercalate
      ((indent ++ (first ++ (trailing ++ lang.symbols.comment :: note))) :: [] :: rest)) :
    Renders lang items source := by
  have hnil := Text.AllBlank.nil
  have hfirst := hline first List.mem_cons_self
  refine ⟨_, first :: [] :: rest, by simp, .cons ?_ (.cons ?_ (List.forall₂_same.2 ?_)), ?_, hsource⟩
  · refine ⟨?_, indent, trailing, _, hindent, htrailing, .inr ⟨note, rfl⟩, rfl⟩
    simp_all
  · exact ⟨by simp, [], [], [], hnil, hnil, .inl rfl, rfl⟩
  · intro line hmem
    exact ⟨(hline line (List.mem_cons_of_mem _ hmem)).2, [], [], [], hnil, hnil, .inl rfl, by simp⟩
  · rw [hlines]
    have hkeep : ∀ line ∈ first :: rest, (!line.isEmpty) = true := by
      intro line hmem
      simpa using (hline line hmem).1
    simpa [List.filter_cons, hfirst.1] using hkeep

def visitEnglish : String :=
  "  @input guest # who\n\n:if (@guest < 3)\nhall:\n:action say(\"a = b\", -1)\n:return\nend hall\n" ++
    ":entry hall\n:end"

def visitChinese : String :=
  "  @输入 guest #\n\n：如果 （@guest < 3）\nhall：\n：行为 say（“a = b”， -1）\n：返回\n结束 hall\n" ++
    "：进入 hall\n：结束"

theorem renders_visit : Renders .english visit visitEnglish ∧ Renders .chinese visit visitChinese := by
  have hspace := Text.AllBlank.space
  constructor
  · exact renders_of_lines rfl (by decide) _ _ " who".toList (hspace.append hspace) hspace
      (by decide) (by decide +kernel)
  · exact renders_of_lines rfl (by decide) _ _ [] (hspace.append hspace) hspace
      (by decide) (by decide +kernel)

theorem compile_visit :
    Language.english.InUse ∧ Language.chinese.InUse ∧ AreWritable visit ∧
      Renders .english visit visitEnglish ∧ Renders .chinese visit visitChinese ∧
      compile .english visitEnglish = compile .chinese visitChinese ∧
      (compile .english visitEnglish).result.isOk = true := by
  have henglish : Language.english.InUse := .inl rfl
  have hchinese : Language.chinese.InUse := .inr rfl
  obtain ⟨hsource, hsource'⟩ := renders_visit
  have hcompile := compile_rendered henglish hchinese areWritable_visit hsource hsource'
  exact ⟨henglish, hchinese, areWritable_visit, hsource, hsource', hcompile.2, by decide +kernel⟩

end

end Item

end SceneScript
