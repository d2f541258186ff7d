import SceneScript.Block.Code
import SceneScript.Directive
import SceneScript.Outline

/-!
# Compiling a script

The lines outside the sections make the main block, which comes first and always ends by stopping; each
section makes a block of its own.  Lines that are dropped lead to warnings, also when a fault
turns up later.
-/

namespace SceneScript

/-- The warning for a dropped line. -/
def droppedWarning (line : String) : String := s!"已忽略块外的文本行: '{line}'"

/-- The block of a section. -/
def Section.block (lang : Language) (s : Section) : Except Fault Block :=
  (Statement.parseAll lang s.lines).map (Block.mk s.name)

/-- The blocks of a script, given the statements outside its sections. -/
def scriptBlocks (lang : Language) (main : List String) (sections : List Section) :
    Except Fault (List Block) :=
  match Statement.parseAll lang main with
  | .error fault => .error fault
  | .ok statements =>
    (collect (Section.block lang) sections).map
      (Block.endingWith ⟨mainName, statements⟩ .stop :: ·)

/-- The program of the blocks, before its directives. -/
def Program.ofBlocks (sym : Symbols) (blocks : List Block) : Except Fault Program :=
  match Block.place sym .empty blocks with
  | .error fault => .error fault
  | .ok (placed, table) => (PlacedBlock.emit .endless table placed).map Program.ofCode

/-- The program of an outline. -/
def Outline.compile (lang : Language) (o : Outline) : Except Fault Program :=
  let (directives, main) := Directive.separate lang.symbols o.rest
  match scriptBlocks lang main o.sections with
  | .error fault => .error fault
  | .ok blocks =>
    match Program.ofBlocks lang.symbols blocks with
    | .error fault => .error fault
    | .ok program =>
      match Directive.applyAll lang program directives with
      | (program, none) => .ok program
      | (_, some fault) => .error fault

/-- What compiling a script gives. -/
structure Outcome where
  result : Except Fault Program
  warnings : List String

/-- Compiles the lines of a script. -/
def compileLines (lang : Language) (lines : List String) : Outcome :=
  match Outline.ofLines lang.symbols lines with
  | .error fault => ⟨.error fault, []⟩
  | .ok o => ⟨o.compile lang, o.dropped.map droppedWarning⟩

/-- Compiles a script. -/
def compile (lang : Language) (source : String) : Outcome :=
  compileLines lang (Line.normalize lang.symbols.comment source)

end SceneScript
