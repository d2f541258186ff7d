import SceneScript.Compile
import SceneScript.Proofs.Collect

/-!
# Compiled scripts

What it takes for a script to compile, pass by pass: it has an outline, its blocks can be read, placed and
emitted, and its directives apply to the program of the blocks.  The main block comes first and stops at its
end.

    (compile lang source).result = .ok program ↔ ∃ o, … ∧ o.compile lang = .ok program
                                                                     (compile_eq_ok_iff)
    o.compile lang = .ok program ↔ every later pass accepts          (Outline.compile_eq_ok_iff)
-/

namespace SceneScript

namespace Block

@[simp] theorem name_endingWith (b : Block) (keyword : Keyword) : (b.endingWith keyword).name = b.name := by
  unfold endingWith
  split <;> rfl

theorem getLast?_endingWith (b : Block) (keyword : Keyword) :
    (b.endingWith keyword).statements.getLast?.map Statement.keyword = some keyword := by
  unfold endingWith
  split
  · assumption
  · simp [Statement.implied]

end Block

theorem Section.name_of_block {lang : Language} {s : Section} {b : Block} (h : s.block lang = .ok b) :
    b.name = s.name := by
  obtain ⟨statements, -, rfl⟩ := map_eq_ok_iff.1 h
  rfl

/-- The blocks of a script: the main one, which stops, and one for each section. -/
theorem scriptBlocks_cases {lang : Language} {main : List String} {sections : List Section}
    {blocks : List Block} (h : scriptBlocks lang main sections = .ok blocks) :
    ∃ b rest, blocks = b :: rest ∧ b.statements.getLast?.map Statement.keyword = some .stop ∧
      b.name = mainName ∧ rest.map Block.name = sections.map Section.name := by
  unfold scriptBlocks at h
  cases hmain : Statement.parseAll lang main with
  | error fault => simp [hmain] at h
  | ok statements =>
    rw [hmain] at h
    obtain ⟨rest, hrest, rfl⟩ := map_eq_ok_iff.1 h
    exact ⟨_, rest, rfl, Block.getLast?_endingWith _ _, Block.name_endingWith _ _,
      map_eq_of_collect (fun _ _ => Section.name_of_block) hrest⟩

/-- Directives do not change the code. -/
theorem Directive.code_applyAll (lang : Language) (ds : List Directive) (p : Program) :
    (applyAll lang p ds).1.code = p.code := by
  induction ds generalizing p with
  | nil => rfl
  | cons d ds ih =>
    rw [applyAll]
    cases happly : apply lang p d with
    | error fault => rfl
    | ok q =>
      have hcode : q.code = p.code := by
        unfold apply at happly
        split at happly <;> cases happly <;> rfl
      rw [← hcode]
      exact ih q

theorem Program.ofBlocks_eq_ok_iff {sym : Symbols} {blocks : List Block} {program : Program} :
    ofBlocks sym blocks = .ok program ↔
      ∃ placed table code, Block.place sym .empty blocks = .ok (placed, table) ∧
        PlacedBlock.emit .endless table placed = .ok code ∧ ofCode code = program := by
  unfold ofBlocks
  cases Block.place sym .empty blocks with
  | error fault => simp
  | ok out =>
    obtain ⟨placed, table⟩ := out
    simp [map_eq_ok_iff, and_assoc]

theorem Outline.compile_eq_ok_iff {lang : Language} {o : Outline} {program : Program} :
    o.compile lang = .ok program ↔
      ∃ blocks before,
        scriptBlocks lang (Directive.separate lang.symbols o.rest).2 o.sections = .ok blocks ∧
        Program.ofBlocks lang.symbols blocks = .ok before ∧
        Directive.applyAll lang before (Directive.separate lang.symbols o.rest).1 = (program, none) := by
  simp only [Outline.compile]
  cases scriptBlocks lang (Directive.separate lang.symbols o.rest).2 o.sections with
  | error fault => simp
  | ok blocks =>
    cases hbefore : Program.ofBlocks lang.symbols blocks with
    | error fault => simp [hbefore]
    | ok before =>
      rcases happly : Directive.applyAll lang before (Directive.separate lang.symbols o.rest).1 with
        ⟨after, fault⟩
      cases fault <;> simp [hbefore, happly]

/-- Every pass accepts what it is given. -/
theorem compile_eq_ok_iff {lang : Language} {source : String} {program : Program} :
    (compile lang source).result = .ok program ↔
      ∃ o, Outline.ofLines lang.symbols (Line.normalize lang.symbols.comment source) = .ok o ∧
        o.compile lang = .ok program := by
  unfold compile compileLines
  cases Outline.ofLines lang.symbols (Line.normalize lang.symbols.comment source) <;> simp

end SceneScript
