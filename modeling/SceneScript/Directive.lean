import SceneScript.Fault
import SceneScript.Language
import SceneScript.Program.Basic
import SceneScript.Text.Blank

/-!
# Directives

A directive declares something about the whole program: `@file Name` its file name, `@input Name …`
names of inputs.  The last file name counts, and inputs add up.
-/

namespace SceneScript

/-- A directive and its arguments. -/
structure Directive where
  name : String
  args : List String
deriving DecidableEq

namespace Directive

/-- A line is a directive if it starts with the directive symbol and holds no assignment. -/
def parse? (sym : Symbols) (line : String) : Option Directive :=
  match line.toList with
  | [] => none
  | c :: rest =>
    if c = sym.directive ∧ ¬sym.assign ∈ c :: rest then
      match (Text.words rest).map String.ofList with
      | [] => some ⟨"", []⟩
      | name :: args => some ⟨name, args⟩
    else none

/-- The directives among the lines, and the other lines. -/
def separate (sym : Symbols) (lines : List String) : List Directive × List String :=
  (lines.filterMap (parse? sym), lines.filter fun line => (parse? sym line).isNone)

/-- The program after one directive. -/
def apply (lang : Language) (p : Program) (d : Directive) : Except Fault Program :=
  match lang.directive? d.name, d.args with
  | none, _ => .error (.noSuchDirective d.name)
  | some _, [] => .error (.missingDirectiveArgument d.name)
  | some .file, name :: _ => .ok { p with file := name }
  | some .input, names => .ok { p with inputs := p.inputs.insertAll names }

/-- The program after the directives up to the first that fails, and its fault. -/
def applyAll (lang : Language) : Program → List Directive → Program × Option Fault
  | p, [] => (p, none)
  | p, d :: ds =>
    match apply lang p d with
    | .error fault => (p, some fault)
    | .ok p => applyAll lang p ds

end Directive

end SceneScript
