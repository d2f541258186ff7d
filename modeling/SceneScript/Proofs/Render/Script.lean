import SceneScript.Outline
import SceneScript.Directive
import SceneScript.Proofs.Collect
import SceneScript.Proofs.Line
import SceneScript.Proofs.Outline.Parts
import SceneScript.Proofs.Render.Clause

/-!
# Writing scripts

A script is a list of items: declarations, clauses of the main block, and named blocks.  Its lines in a language
have the outline that the items say: the blocks are the sections, the declarations and clauses are
the rest, and no line is dropped.

    Outline.ofLines sym (lines of items) = .ok (outline lang items)  (ofLines_lines)
    Directive.separate sym (rest of items) = (directives, main)      (separate_rest)
-/

namespace SceneScript

/-- The word for a kind of directive. -/
def Language.directiveWord (lang : Language) (kind : DirectiveKind) : String :=
  ((lang.directives.find? fun p => p.2 = kind).map Prod.fst).getD ""

/-- A directive without the words and symbols of a language. -/
structure Declaration where
  kind : DirectiveKind
  args : List String

namespace Declaration

/-- The declaration can be written. -/
def IsWritable (d : Declaration) : Prop := d.args ≠ [] ∧ ∀ a ∈ d.args, IsName a

/-- The directive in a language. -/
def directive (lang : Language) (d : Declaration) : Directive := ⟨lang.directiveWord d.kind, d.args⟩

/-- The line of the declaration. -/
def line (lang : Language) (d : Declaration) : List Char :=
  lang.symbols.directive ::
    ((lang.directiveWord d.kind).toList ++ d.args.flatMap fun a => ' ' :: a.toList)

/-- What the declaration says of a program. -/
def apply (p : Program) (d : Declaration) : Program :=
  match d.kind with
  | .file => { p with file := d.args.headD p.file }
  | .input => { p with inputs := p.inputs.insertAll d.args }

end Declaration

/-- A part of a script. -/
inductive Item where
  | declaration (d : Declaration)
  | clause (c : Clause)
  | block (name : String) (clauses : List Clause)

namespace Item

/-- The item can be written. -/
def IsWritable : Item → Prop
  | declaration d => d.IsWritable
  | clause c => c.IsWritable
  | block name clauses => IsName name ∧ ∀ c ∈ clauses, c.IsWritable

/-- The lines of the item. -/
def lines (lang : Language) : Item → List (List Char)
  | declaration d => [d.line lang]
  | clause c => [c.line lang]
  | block name clauses =>
    (name.toList ++ [lang.symbols.keyword]) ::
      (clauses.map (Clause.line lang) ++ [lang.symbols.sectionEnd.toList ++ ' ' :: name.toList])

def declaration? : Item → Option Declaration
  | declaration d => some d
  | _ => none

def clause? : Item → Option Clause
  | clause c => some c
  | _ => none

def block? : Item → Option (String × List Clause)
  | block name clauses => some (name, clauses)
  | _ => none

/-- The declarations of a script. -/
def declarations (items : List Item) : List Declaration := items.filterMap declaration?

/-- The clauses of the main block. -/
def main (items : List Item) : List Clause := items.filterMap clause?

/-- The named blocks. -/
def blocks (items : List Item) : List (String × List Clause) := items.filterMap block?

/-- The script can be written: every item can, and the names of the blocks are different. -/
structure AreWritable (items : List Item) : Prop where
  each : ∀ i ∈ items, i.IsWritable
  nodup : ((blocks items).map Prod.fst).Nodup
  not_main : mainName ∉ (blocks items).map Prod.fst

/-- The line of an item outside the blocks. -/
def restLine? (lang : Language) : Item → Option String
  | declaration d => some (String.ofList (d.line lang))
  | clause c => some (String.ofList (c.line lang))
  | block _ _ => none

/-- The section of a named block. -/
def sectionOf (lang : Language) (b : String × List Clause) : Section :=
  ⟨b.1, b.2.map fun c => String.ofList (c.line lang)⟩

/-- The outline of a script. -/
def outline (lang : Language) (items : List Item) : Outline where
  sections := (blocks items).map (sectionOf lang)
  rest := items.filterMap (restLine? lang)
  dropped := []

section

variable {lang : Language}

/-! ## Lines of blocks -/

theorem not_mem_of_isName (hsym : lang.symbols.InUse) {name : String} (h : IsName name) {c : Char}
    (hc : c ∈ name.toList) : c ∉ lang.symbols.marks := by
  intro hmark
  have hchar := h.2 c hc
  rw [(hsym.mark hmark).2.2] at hchar
  cases hchar

theorem startsWithAny_header (hsym : lang.symbols.InUse) {name : String} (h : IsName name) :
    Line.startsWithAny lang.symbols.lineStarts
      (String.ofList (name.toList ++ [lang.symbols.keyword])) = false := by
  obtain ⟨c, cs, hcs⟩ := List.exists_cons_of_ne_nil h.visible.ne_nil
  have hc := not_mem_of_isName hsym h (hcs ▸ List.mem_cons_self : c ∈ name.toList)
  simp only [Symbols.marks, List.mem_cons, not_or] at hc
  simp [Line.startsWithAny, String.toList_ofList, hcs, Symbols.lineStarts, hc.1, hc.2.1]

theorem header?_header {name : String} (h : IsName name) :
    Section.header? lang.symbols (String.ofList (name.toList ++ [lang.symbols.keyword])) = some name := by
  have hvisible := h.visible
  have hblank : name.toList.any Text.isBlank = false := by
    rw [List.any_eq_false]
    intro c hc
    simp [Text.not_blank_of_isNameChar (h.2 c hc)]
  have hne : name.toList.isEmpty = false := by simpa using hvisible.ne_nil
  simp only [Section.header?, String.toList_ofList, List.getLast?_concat, List.dropLast_concat, if_true]
  rw [Text.trimEnd_of_last hvisible.solid.2, hblank, hne, String.ofList_toList]
  rfl

theorem ending?_line (hlang : lang.InUse) (c : Clause) :
    Section.ending? lang.symbols (String.ofList (c.line lang)) = none := by
  have hcut : ∀ cs, Text.dropPrefix? lang.symbols.sectionEnd.toList (lang.symbols.keyword :: cs) = none := by
    intro cs
    rcases hlang with rfl | rfl <;> rfl
  rw [Section.ending?, String.toList_ofList, Clause.line, hcut]

theorem ending?_ending {name : String} (h : IsName name) :
    Section.ending? lang.symbols
      (String.ofList (lang.symbols.sectionEnd.toList ++ ' ' :: name.toList)) = some name := by
  have hspace : Text.isBlank ' ' = true := by decide
  have hne : name.toList.isEmpty = false := by simpa using h.visible.ne_nil
  rw [Section.ending?, String.toList_ofList, Text.dropPrefix?_eq_some_iff.2 rfl]
  simp only [hspace, if_true]
  rw [h.visible.solid.trim_eq, hne, String.ofList_toList]
  rfl

theorem AreWritable.of_cons {i : Item} {items : List Item} (h : AreWritable (i :: items)) :
    i.IsWritable ∧ AreWritable items := by
  have hsub : (blocks items).Sublist (blocks (i :: items)) :=
    (List.sublist_cons_self i items).filterMap block?
  refine ⟨h.each i List.mem_cons_self, ⟨fun j hj => h.each j (List.mem_cons_of_mem _ hj), ?_, ?_⟩⟩
  · exact h.nodup.sublist (hsub.map Prod.fst)
  · exact fun hmem => h.not_main ((hsub.map Prod.fst).subset hmem)

/-- A line that starts with a symbol stays outside the sections. -/
theorem scan_rest {c : Char} (hc : c ∈ lang.symbols.lineStarts) (cs : List Char) (used lines : List String) :
    Outline.scan lang.symbols none used (String.ofList (c :: cs) :: lines) =
      (Outline.scan lang.symbols none used lines).map (Outline.addRest (String.ofList (c :: cs))) := by
  have hstarts : Line.startsWithAny lang.symbols.lineStarts (String.ofList (c :: cs)) = true := by
    rw [Line.startsWithAny, String.toList_ofList]
    exact List.contains_iff_mem.2 hc
  rw [Outline.scan, if_pos hstarts]

/-- The lines of a block become its section. -/
theorem scan_block (hlang : lang.InUse) {name : String} (hname : IsName name) (clauses : List Clause)
    {used : List String} (hfresh : ¬(name = mainName ∨ name ∈ used)) (rest : List String) :
    Outline.scan lang.symbols none used (((block name clauses).lines lang).map String.ofList ++ rest) =
      (Outline.scan lang.symbols none (name :: used) rest).map
        (Outline.addSection (sectionOf lang (name, clauses))) := by
  have hbody : ∀ line ∈ (clauses.map (Clause.line lang)).map String.ofList,
      Section.ending? lang.symbols line = none := by
    intro line hline
    simp only [List.map_map, List.mem_map, Function.comp_apply] at hline
    obtain ⟨c, -, rfl⟩ := hline
    exact ending?_line hlang c
  have hheader : Section.IsHeader lang.symbols (String.ofList (name.toList ++ [lang.symbols.keyword])) name :=
    ⟨startsWithAny_header hlang.symbols hname, header?_header hname⟩
  rw [lines, List.map_cons, List.map_append, List.map_singleton, List.cons_append, List.append_assoc,
    List.singleton_append, Outline.scan_header hheader hfresh, Outline.scan_stays hbody,
    Outline.scan_ending (ending?_ending hname)]
  simp [sectionOf, Function.comp_def]

theorem scan_lines (hlang : lang.InUse) {items : List Item} (h : AreWritable items) {used : List String}
    (hused : ∀ name ∈ (blocks items).map Prod.fst, name ∉ used) :
    Outline.scan lang.symbols none used ((items.flatMap (lines lang)).map String.ofList) =
      .ok (outline lang items) := by
  induction items generalizing used with
  | nil => rfl
  | cons i items ih =>
    obtain ⟨hi, hitems⟩ := h.of_cons
    rw [List.flatMap_cons, List.map_append]
    cases i with
    | declaration d =>
      have hstart : lang.symbols.directive ∈ lang.symbols.lineStarts := by simp [Symbols.lineStarts]
      have hrest := ih hitems hused
      rw [lines, List.map_singleton, List.singleton_append, Declaration.line, scan_rest hstart, hrest]
      rfl
    | clause c =>
      have hstart : lang.symbols.keyword ∈ lang.symbols.lineStarts := by simp [Symbols.lineStarts]
      have hrest := ih hitems hused
      rw [lines, List.map_singleton, List.singleton_append, Clause.line, scan_rest hstart, hrest]
      rfl
    | block name clauses =>
      have hnames : (blocks (.block name clauses :: items)).map Prod.fst =
          name :: (blocks items).map Prod.fst := rfl
      have hnodup := h.nodup
      have hmain := h.not_main
      rw [hnames] at hused hnodup hmain
      rw [List.nodup_cons] at hnodup
      rw [List.mem_cons, not_or] at hmain
      have hfresh : ¬(name = mainName ∨ name ∈ used) := by
        rintro (hname | hname)
        · exact hmain.1 hname.symm
        · exact hused name List.mem_cons_self hname
      have hrest : Outline.scan lang.symbols none (name :: used)
          ((items.flatMap (lines lang)).map String.ofList) = .ok (outline lang items) := by
        refine ih hitems fun n hn => ?_
        rw [List.mem_cons, not_or]
        exact ⟨fun hname => hnodup.1 (hname ▸ hn), hused n (List.mem_cons_of_mem _ hn)⟩
      rw [scan_block hlang hi.1 clauses hfresh, hrest]
      rfl

/-- **The lines of a script have its outline.** -/
theorem ofLines_lines (hlang : lang.InUse) {items : List Item} (h : AreWritable items) :
    Outline.ofLines lang.symbols ((items.flatMap (lines lang)).map String.ofList) =
      .ok (outline lang items) :=
  scan_lines hlang h (by simp)

/-! ## Declarations -/

theorem directiveWord_facts (hlang : lang.InUse) (kind : DirectiveKind) :
    lang.directive? (lang.directiveWord kind) = some kind ∧ IsName (lang.directiveWord kind) := by
  constructor
  · rcases hlang with rfl | rfl <;> cases kind <;> rfl
  · apply hlang.isName
    rcases hlang with rfl | rfl <;> cases kind <;> decide

theorem assign_facts (hlang : lang.InUse) :
    lang.symbols.directive ≠ lang.symbols.assign ∧ Text.isNameChar lang.symbols.assign = false ∧
      lang.symbols.assign ≠ ' ' := by
  rcases hlang with rfl | rfl <;> decide

theorem splitOn_spaced {w : List Char} {ws : List String} (hw : ∀ c ∈ w, Text.isBlank c = false)
    (hws : ∀ a ∈ ws, IsName a) :
    Text.splitOn Text.isBlank (w ++ ws.flatMap fun a => ' ' :: a.toList) = w :: ws.map String.toList := by
  induction ws generalizing w with
  | nil => simpa using Text.splitOn_of_forall hw
  | cons a ws ih =>
    have ha : ∀ c ∈ a.toList, Text.isBlank c = false :=
      fun c hc => Text.not_blank_of_isNameChar ((hws a List.mem_cons_self).2 c hc)
    rw [List.flatMap_cons, List.cons_append, Text.splitOn_append hw (by decide),
      ih ha fun b hb => hws b (List.mem_cons_of_mem _ hb), List.map_cons]

theorem words_spaced {w : String} {ws : List String} (hw : IsName w) (hws : ∀ a ∈ ws, IsName a) :
    (Text.words (w.toList ++ ws.flatMap fun a => ' ' :: a.toList)).map String.ofList = w :: ws := by
  have hall : ∀ a ∈ w :: ws, IsName a := by
    intro a ha
    rcases List.mem_cons.1 ha with rfl | ha
    · exact hw
    · exact hws a ha
  have hkeep : ∀ cs ∈ (w :: ws).map String.toList, (!cs.isEmpty) = true := by
    intro cs hcs
    obtain ⟨a, ha, rfl⟩ := List.mem_map.1 hcs
    simpa using (hall a ha).visible.ne_nil
  rw [Text.words, splitOn_spaced (fun c hc => Text.not_blank_of_isNameChar (hw.2 c hc)) hws,
    ← List.map_cons, List.filter_eq_self.2 hkeep, List.map_map]
  simp [Function.comp_def]

theorem assign_not_mem (hlang : lang.InUse) {d : Declaration} (h : d.IsWritable) :
    lang.symbols.assign ∉ d.line lang := by
  obtain ⟨hdirective, hchar, hspace⟩ := assign_facts hlang
  have hname : ∀ {s : String}, IsName s → lang.symbols.assign ∉ s.toList := by
    intro s hs hmem
    rw [hs.2 _ hmem] at hchar
    cases hchar
  simp only [Declaration.line, List.mem_cons, List.mem_append, List.mem_flatMap, not_or, not_exists, not_and]
  exact ⟨hdirective.symm, hname (directiveWord_facts hlang d.kind).2,
    fun a ha => ⟨hspace, hname (h.2 a ha)⟩⟩

theorem parse?_declaration (hlang : lang.InUse) {d : Declaration} (h : d.IsWritable) :
    Directive.parse? lang.symbols (String.ofList (d.line lang)) = some (d.directive lang) := by
  have hassign := assign_not_mem hlang h
  have hwords := words_spaced (directiveWord_facts hlang d.kind).2 h.2
  rw [Directive.parse?, String.toList_ofList]
  simp only [Declaration.line] at hassign ⊢
  rw [if_pos ⟨trivial, hassign⟩, hwords]
  rfl

theorem parse?_clause (hlang : lang.InUse) (c : Clause) :
    Directive.parse? lang.symbols (String.ofList (c.line lang)) = none := by
  have hne := (Clause.symbol_facts hlang).2
  simp [Directive.parse?, Clause.line, String.toList_ofList, hne]

/-- **The declarations and the main clauses are told apart.** -/
theorem separate_rest (hlang : lang.InUse) {items : List Item} (h : ∀ i ∈ items, i.IsWritable) :
    Directive.separate lang.symbols (outline lang items).rest =
      ((declarations items).map (Declaration.directive lang),
        (main items).map fun c => String.ofList (c.line lang)) := by
  simp only [Directive.separate, outline, declarations, main]
  induction items with
  | nil => rfl
  | cons i items ih =>
    obtain ⟨hdirectives, hmain⟩ := Prod.mk.inj (ih fun j hj => h j (List.mem_cons_of_mem _ hj))
    have hi := h i List.mem_cons_self
    cases i with
    | declaration d =>
      have hparse := parse?_declaration hlang (show d.IsWritable from hi)
      simp [List.filterMap_cons, restLine?, declaration?, clause?, hparse, hdirectives, hmain]
    | clause c =>
      have hparse := parse?_clause hlang c
      simp [List.filterMap_cons, restLine?, declaration?, clause?, hparse, hdirectives, hmain]
    | block name clauses => simp [List.filterMap_cons, restLine?, declaration?, clause?, hdirectives, hmain]

theorem applyAll_directives (hlang : lang.InUse) {ds : List Declaration} (h : ∀ d ∈ ds, d.IsWritable)
    (p : Program) :
    Directive.applyAll lang p (ds.map (Declaration.directive lang)) =
      (ds.foldl Declaration.apply p, none) := by
  induction ds generalizing p with
  | nil => rfl
  | cons d ds ih =>
    have happly : Directive.apply lang p (d.directive lang) = .ok (d.apply p) := by
      obtain ⟨a, args, hargs⟩ := List.exists_cons_of_ne_nil (h d List.mem_cons_self).1
      have hkind := (directiveWord_facts hlang d.kind).1
      obtain ⟨kind, args'⟩ := d
      obtain rfl : args' = a :: args := hargs
      cases kind <;> simp [Directive.apply, Declaration.directive, hkind, Declaration.apply]
    rw [List.map_cons, Directive.applyAll, happly]
    exact ih (fun e he => h e (List.mem_cons_of_mem _ he)) (d.apply p)

end

end Item

end SceneScript
