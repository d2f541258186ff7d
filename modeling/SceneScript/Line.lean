import SceneScript.Text.Blank

/-!
# Lines

A script is read line by line.  A tab counts as a space, blanks at either end do not count, a line
ends where a comment starts, and lines with nothing left are skipped.
-/

namespace SceneScript.Line

/-- A line without a carriage return at its end. -/
def dropReturn (line : List Char) : List Char :=
  if line.getLast? = some '\r' then line.dropLast else line

/-- Every piece but the last was ended by a line feed, before which a carriage return may stand.
An empty last piece is no line. -/
def endPieces : List (List Char) → List (List Char)
  | [] => []
  | [last] => if last.isEmpty then [] else [last]
  | line :: rest => dropReturn line :: endPieces rest

/-- The lines of a text. -/
def ofText (cs : List Char) : List (List Char) := endPieces (Text.splitOn (· == '\n') cs)

/-- One line without indentation, comment and trailing blanks. -/
def clean (comment : Char) (line : List Char) : List Char :=
  let spaced := line.map fun c => if c = '\t' then ' ' else c
  Text.trimEnd ((Text.trimStart spaced).takeWhile (· != comment))

/-- The lines of a script that hold something, cleaned. -/
def normalize (comment : Char) (text : String) : List String :=
  (((ofText text.toList).map (clean comment)).filter (!·.isEmpty)).map String.ofList

/-- Whether `line` starts with one of the characters `heads`. -/
def startsWithAny (heads : List Char) (line : String) : Bool :=
  match line.toList with
  | [] => false
  | c :: _ => heads.contains c

end SceneScript.Line
