import SceneScript.Instruction.Basic
import SceneScript.Program.NameSet

/-!
# Programs

A program is what a script compiles to: its instructions, its file name and the inputs it declares.
-/

namespace SceneScript

/-- A compiled script. -/
structure Program where
  code : List Instruction
  file : String
  inputs : NameSet
deriving BEq

/-- A program that declares nothing. -/
def Program.ofCode (code : List Instruction) : Program := ⟨code, "", .empty⟩

end SceneScript
