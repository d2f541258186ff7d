import SceneScript.Storage.Path

/-!
# File trees

What lies below the working directory: files and folders, each at a location, the list of names that leads to
it.  A path is followed name by name from the working directory; nothing outside it can be reached.  A path
that is too long, or has a NUL character in it, is not followed at all, and a name that is too long is
not looked up.  Lengths are those of the texts in UTF-8.

Entries below a folder are listed depth first with the entries of each folder in the order of their names,
which is the lexicographic order of their locations.
-/

namespace SceneScript

/-- Why a file or folder cannot be used. -/
inductive FileFault where
  | notFound
  | alreadyExists
  | notDirectory
  | isDirectory
  | nameTooLong
  /-- There is a NUL character in a path. -/
  | nulByte
  /-- The content of a file is no text. -/
  | invalidText
deriving DecidableEq

def FileFault.message : FileFault → String
  | notFound => "No such file or directory (os error 2)"
  | alreadyExists => "File exists (os error 17)"
  | notDirectory => "Not a directory (os error 20)"
  | isDirectory => "Is a directory (os error 21)"
  | nameTooLong => "File name too long (os error 36)"
  | nulByte => "file name contained an unexpected NUL byte"
  | invalidText => "stream did not contain valid UTF-8"

/-- The names from the working directory to a file or folder. -/
abbrev Location := List String

/-- What lies at a location. -/
inductive Entry where
  | file (content : ByteArray)
  | folder

/-- Files and folders by location; of two entries for a location the first counts. -/
structure FileTree where
  entries : List (Location × Entry)

namespace FileTree

def empty : FileTree := ⟨[]⟩

/-- What lies at a location; the working directory is a folder. -/
def find? (t : FileTree) : Location → Option Entry
  | [] => some .folder
  | loc => (t.entries.find? fun p => p.1 = loc).map Prod.snd

/-- What lies below one of the names, as a tree of its own. -/
def inside (t : FileTree) (name : String) : FileTree :=
  ⟨t.entries.filterMap fun p =>
    match p.1 with
    | [] => none
    | first :: names => if first = name then some (names, p.2) else none⟩

/-- What lies below a location, as a tree of its own. -/
def under (t : FileTree) (loc : Location) : FileTree := loc.foldl inside t

/-- The tree with an entry at a location that has none. -/
def add (t : FileTree) (loc : Location) (e : Entry) : FileTree := ⟨(loc, e) :: t.entries⟩

/-- The tree with another entry at a location. -/
def put (t : FileTree) (loc : Location) (e : Entry) : FileTree :=
  ⟨(loc, e) :: t.entries.filter fun p => p.1 ≠ loc⟩

/-- The most bytes that a name may have. -/
def nameLimit : Nat := 255

/-- The most bytes that a path may have. -/
def pathLimit : Nat := 4095

/-- Whether a name has too many bytes. -/
def isTooLong (name : List Char) : Bool := nameLimit < (String.ofList name).utf8ByteSize

/-- Whether a piece names a folder that exists anyway. -/
def isDots (piece : List Char) : Bool := Path.isIdle piece || piece == ['.', '.']

/-- Why pieces cannot be followed outside the working directory, where nothing but folders around it is
known. -/
def outsideFault : List (List Char) → FileFault
  | [] => .isDirectory
  | piece :: pieces =>
    if isDots piece then outsideFault pieces
    else if isTooLong piece then .nameTooLong
    else .notFound

/-- Follows names from a folder, below which lies `here`; every step leads out of a folder, to something that
exists. -/
def walk (t : FileTree) : Location → FileTree → List (List Char) → Except FileFault Location
  | loc, _, [] => .ok loc
  | loc, here, piece :: pieces =>
    if Path.isIdle piece then t.walk loc here pieces
    else if piece = ['.', '.'] then
      if loc.isEmpty then .error (outsideFault pieces)
      else t.walk loc.dropLast (t.under loc.dropLast) pieces
    else if isTooLong piece then .error .nameTooLong
    else
      let name := String.ofList piece
      match here.find? [name] with
      | none => .error .notFound
      | some .folder => t.walk (loc ++ [name]) (here.inside name) pieces
      | some (.file _) => if pieces.isEmpty then .ok (loc ++ [name]) else .error .notDirectory

/-- Follows names from the working directory. -/
def follow (t : FileTree) (pieces : List (List Char)) : Except FileFault Location :=
  t.walk [] t pieces

/-- Why a path is not followed: it has a NUL character, is too long, or does not start in the working
directory. -/
def refusal? (p : Path) : Option FileFault :=
  if p.text.toList.contains (Char.ofNat 0) then some .nulByte
  else if pathLimit < p.text.utf8ByteSize then some .nameTooLong
  else
    match p.text.toList with
    | [] => some .notFound
    | c :: _ => if c = '/' then some (outsideFault p.pieces) else none

/-- Where a path leads. -/
def locate (t : FileTree) (p : Path) : Except FileFault Location :=
  match refusal? p with
  | some fault => .error fault
  | none => t.follow p.pieces

/-- What a path leads to. -/
def lookup? (t : FileTree) (p : Path) : Option Entry :=
  match t.locate p with
  | .ok loc => t.find? loc
  | .error _ => none

def pathExists (t : FileTree) (p : Path) : Bool := (t.lookup? p).isSome

def isFile (t : FileTree) (p : Path) : Bool :=
  match t.lookup? p with
  | some (.file _) => true
  | _ => false

def isFolder (t : FileTree) (p : Path) : Bool :=
  match t.lookup? p with
  | some .folder => true
  | _ => false

/-- The text of the file at a path. -/
def readText (t : FileTree) (p : Path) : Except FileFault String :=
  match t.locate p with
  | .error fault => .error fault
  | .ok loc =>
    match t.find? loc with
    | none => .error .notFound
    | some .folder => .error .isDirectory
    | some (.file content) =>
      match String.fromUTF8? content with
      | some text => .ok text
      | none => .error .invalidText

/-- A path that may lead to something new: the folder it lies in, its last piece, and whether
slashes follow that. -/
def locateNew (t : FileTree) (p : Path) : Except FileFault (Location × List Char × Bool) :=
  match refusal? p with
  | some fault => .error fault
  | none =>
    let ps := p.pieces
    let cut := (ps.reverse.dropWhile List.isEmpty).reverse
    match t.follow cut.dropLast with
    | .error fault => .error fault
    | .ok loc =>
      match t.find? loc with
      | some .folder => .ok (loc, cut.getLast?.getD [], cut.length < ps.length)
      | _ => .error .notDirectory

/-- The tree with a file written at a path. -/
def write (t : FileTree) (p : Path) (content : ByteArray) : Except FileFault FileTree :=
  match t.locateNew p with
  | .error fault => .error fault
  | .ok (folder, last, slashes) =>
    if isDots last || slashes then .error .isDirectory
    else if isTooLong last then .error .nameTooLong
    else
      let loc := folder ++ [String.ofList last]
      match t.find? loc with
      | some .folder => .error .isDirectory
      | _ => .ok (t.put loc (.file content))

/-- Follows names from a folder, below which lies `here`, and makes folders of those that are missing.  What
has been made before a fault stays.  A file at the last name, or after something has been made, is in the
place of a folder; any other file is no way to what lies below it. -/
def makeFrom (t : FileTree) (made : Bool) (loc : Location) (here : FileTree) :
    List (List Char) → FileTree × Option FileFault
  | [] => (t, none)
  | piece :: pieces =>
    if Path.isIdle piece then t.makeFrom made loc here pieces
    else if piece = ['.', '.'] then
      if loc.isEmpty then (t, some (outsideFault pieces))
      else t.makeFrom made loc.dropLast (t.under loc.dropLast) pieces
    else if isTooLong piece then (t, some .nameTooLong)
    else
      let name := String.ofList piece
      let next := loc ++ [name]
      match here.find? [name] with
      | some .folder => t.makeFrom made next (here.inside name) pieces
      | some (.file _) =>
        (t, some (if made || pieces.isEmpty then .alreadyExists else .notDirectory))
      | none => (t.add next .folder).makeFrom true next (here.inside name) pieces

/-- Makes a path a folder, and the folders around it too. -/
def createFolders (t : FileTree) (p : Path) : FileTree × Option FileFault :=
  match refusal? p with
  | some fault => (t, some fault)
  | none => t.makeFrom false [] t p.pieces

/-- The entries below a location, with the names that lead to them from there. -/
def below (t : FileTree) (loc : Location) : List (Location × Entry) :=
  let inside := t.entries.filterMap fun p =>
    if loc.isPrefixOf p.1 && loc.length < p.1.length then some (p.1.drop loc.length, p.2) else none
  inside.mergeSort fun a b => !decide (b.1 < a.1)

/-- The files with their paths, in the order of the paths. -/
def files (t : FileTree) : List (String × ByteArray) :=
  let all := t.entries.filterMap fun p =>
    match p.2 with
    | .file content => some ("/".intercalate p.1, content)
    | .folder => none
  all.mergeSort fun a b => a.1 ≤ b.1

/-- The files that are not in `old`, or have another content there. -/
def changesSince (t old : FileTree) : List (String × ByteArray) :=
  let before := old.files
  t.files.filter fun f => !before.any fun g => g.1 == f.1 && g.2 == f.2

end FileTree

end SceneScript
