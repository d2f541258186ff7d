import SceneScript.Call

/-!
# Paths

A path is a text, cut into pieces at the slashes.  Pieces that are empty or a single dot stand for nothing,
the first one apart.  The name of a path is its last piece that stands for something, unless that is
`.` or `..`; its extension is what follows the last dot of the name, if something stands before that.
-/

namespace SceneScript

/-- The text of a path. -/
structure Path where
  text : String
deriving DecidableEq

namespace Path

/-- The pieces between the slashes. -/
def pieces (p : Path) : List (List Char) := Text.splitOn (· == '/') p.text.toList

/-- The path with these pieces. -/
def ofPieces (ps : List (List Char)) : Path := ⟨"/".intercalate (ps.map String.ofList)⟩

/-- Whether a piece stands for nothing. -/
def isIdle (piece : List Char) : Bool := piece == [] || piece == ['.']

/-- The pieces without the idle ones at the end; the first is kept. -/
def dropIdle : List (List Char) → List (List Char)
  | [] => []
  | first :: rest => first :: (rest.reverse.dropWhile isIdle).reverse

/-- The name of the path. -/
def name? (p : Path) : Option (List Char) :=
  match (dropIdle p.pieces).getLast? with
  | none => none
  | some name => if isIdle name || name == ['.', '.'] then none else some name

/-- A name before its last dot, and its extension. -/
def splitName (name : List Char) : List Char × Option (List Char) :=
  match cutLast '.' name with
  | some (c :: before, after) => (c :: before, some after)
  | _ => (name, none)

/-- The extension of the path's name. -/
def extension? (p : Path) : Option (List Char) := p.name?.bind fun name => (splitName name).2

/-- The path up to its name, with the extension of that replaced.  A path without a name is kept. -/
def replaceExtension (p : Path) (extension : String) : Path :=
  match p.name? with
  | none => p
  | some name =>
    let upTo := (dropIdle p.pieces).dropLast ++ [(splitName name).1]
    ⟨(ofPieces upTo).text ++ if extension.isEmpty then "" else "." ++ extension⟩

/-- The path with a new extension: the old one is cut off the end of the text before. -/
def withExtension (p : Path) (extension : String) : Path :=
  match p.extension? with
  | none => p.replaceExtension extension
  | some old =>
    let cs := p.text.toList
    replaceExtension ⟨String.ofList (cs.take (cs.length - old.length))⟩ extension

/-- The path of the folder that holds the path's last piece.  The root and the empty path have none. -/
def parent? (p : Path) : Option Path :=
  match dropIdle p.pieces with
  | [] => none
  | [first] => if first.isEmpty then none else some ⟨""⟩
  | ps =>
    match dropIdle ps.dropLast with
    | [[]] => some ⟨"/"⟩
    | ps => some (ofPieces ps)

/-- The path of something in a folder. -/
def join (folder : Path) (rest : String) : Path :=
  if folder.text.isEmpty || folder.text.toList.getLast? = some '/' then ⟨folder.text ++ rest⟩
  else ⟨folder.text ++ "/" ++ rest⟩

end Path

end SceneScript
