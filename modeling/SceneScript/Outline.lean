import SceneScript.Fault
import SceneScript.Line
import SceneScript.Symbols

/-!
# The outline of a script

A script has named sections and lines outside them.  A section starts with a header `Name:`, ends with a
line `end Name`, and holds the lines between.  Outside a section, a line that starts with the keyword or
the directive symbol belongs to the rest; any other line that is no header is dropped.
-/

namespace SceneScript

/-- The name of the block of the lines outside any section. -/
def mainName : String := "Main"

/-- A named section and its lines. -/
structure Section where
  name : String
  lines : List String
deriving DecidableEq

/-- The name in a header: a word without blanks before the keyword symbol. -/
def Section.header? (sym : Symbols) (line : String) : Option String :=
  let cs := line.toList
  if cs.getLast? = some sym.keyword then
    let name := Text.trimEnd cs.dropLast
    if name.isEmpty || name.any Text.isBlank then none else some (String.ofList name)
  else none

/-- The name in a last line: what follows the word for the end and a blank. -/
def Section.ending? (sym : Symbols) (line : String) : Option String :=
  match Text.dropPrefix? sym.sectionEnd.toList line.toList with
  | some (c :: rest) =>
    if Text.isBlank c then
      let name := Text.trim rest
      if name.isEmpty then none else some (String.ofList name)
    else none
  | _ => none

/-- The sections of a script, the statements and directives outside them, and the lines that are
dropped, each in the order of the script. -/
structure Outline where
  sections : List Section
  rest : List String
  dropped : List String
deriving DecidableEq

namespace Outline

def empty : Outline := ⟨[], [], []⟩

def addSection (s : Section) (o : Outline) : Outline := { o with sections := s :: o.sections }

def addRest (line : String) (o : Outline) : Outline := { o with rest := line :: o.rest }

def addDropped (line : String) (o : Outline) : Outline := { o with dropped := line :: o.dropped }

/-- The outline of the lines that follow an open section, or no section, when the names `used` are
taken. -/
def scan (sym : Symbols) : Option Section → List String → List String → Except Fault Outline
  | none, _, [] => .ok empty
  | some s, _, [] => .error (.unterminatedSection s.name)
  | some s, used, line :: lines =>
    match Section.ending? sym line with
    | some name =>
      if name = s.name then (scan sym none (name :: used) lines).map (addSection s)
      else .error (.mismatchedSectionEnd s.name name)
    | none => scan sym (some ⟨s.name, s.lines ++ [line]⟩) used lines
  | none, used, line :: lines =>
    if Line.startsWithAny sym.lineStarts line then (scan sym none used lines).map (addRest line)
    else
      match Section.header? sym line with
      | some name =>
        if name = mainName ∨ name ∈ used then .error (.duplicateBlock name)
        else scan sym (some ⟨name, []⟩) used lines
      | none => (scan sym none used lines).map (addDropped line)

/-- The outline of the lines of a script. -/
def ofLines (sym : Symbols) (lines : List String) : Except Fault Outline := scan sym none [] lines

end Outline

end SceneScript
