import SceneScript.Compile
import SceneScript.Program.Saved
import SceneScript.Storage.FileTree

/-!
# Jobs

A job compiles the script at one path and saves the program at another.  In a folder, every file with the
right extension makes a job; its target has the same place below the target folder and another
extension.
-/

namespace SceneScript

/-- A script and where its program is saved. -/
structure Job where
  source : Path
  target : Path
deriving DecidableEq

/-- Why a job fails, or the jobs of a folder cannot be found. -/
inductive JobFault where
  /-- Below `folder`, the folder at `place` cannot be listed. -/
  | walk (folder place : Path) (cause : FileFault)
  | read (source : Path) (cause : FileFault)
  | compile (source : Path) (cause : Fault)
  | createFolder (folder : Path) (cause : FileFault)
  | write (target : Path) (cause : FileFault)
deriving DecidableEq

def JobFault.message : JobFault → String
  | walk folder place cause =>
    let top := folder.text
    let place := place.text
    let reason := cause.message
    s!"遍历目录失败: {top}: IO error for operation on {place}: {reason}: {reason}"
  | read source cause =>
    let place := source.text
    let reason := cause.message
    s!"读取源文件失败: {place}: {reason}"
  | compile source cause =>
    let place := source.text
    let reason := cause.message
    s!"编译失败: {place}: {reason}"
  | createFolder folder cause =>
    let place := folder.text
    let reason := cause.message
    s!"创建输出目录失败: {place}: {reason}"
  | write target cause =>
    let place := target.text
    let reason := cause.message
    s!"写入输出文件失败: {place}: {reason}"

/-- Whether two texts are equal, the case of ASCII letters apart. -/
def sameIgnoringCase (a b : List Char) : Bool := a.map Char.toLower == b.map Char.toLower

/-- Whether a name has the extension; case does not matter for ASCII letters. -/
def hasExtension (extension : String) (name : String) : Bool :=
  match (Path.splitName name.toList).2 with
  | some ext => sameIgnoringCase ext extension.toList
  | none => false

/-- The path of something below a folder. -/
def Path.below (folder : Path) (names : Location) : Path := folder.join ("/".intercalate names)

/-- The fault of listing an entry below a folder: a folder there may have a path that is refused. -/
def listingFault? (folder : Path) : Location × Entry → Option JobFault
  | (names, .folder) =>
    (FileTree.refusal? (folder.below names)).map (.walk folder (folder.below names))
  | (_, .file _) => none

/-- The names that lead to an entry, if it is a file with the extension. -/
def scriptNames? (extension : String) : Location × Entry → Option Location
  | (_, .folder) => none
  | (names, .file _) =>
    if hasExtension extension (names.getLast?.getD "") then some names else none

/-- The scripts below a folder, or only those in it, as names that lead to them from there. -/
def FileTree.scripts (t : FileTree) (folder : Path) (extension : String) (recursive : Bool) :
    Except JobFault (List Location) :=
  match t.locate folder with
  | .error fault => .error (.walk folder folder fault)
  | .ok loc =>
    let listed := t.below loc
    if recursive then
      match listed.findSome? (listingFault? folder) with
      | some fault => .error fault
      | none => .ok (listed.filterMap (scriptNames? extension))
    else .ok ((listed.filter (·.1.length == 1)).filterMap (scriptNames? extension))

/-- The paths of the scripts in a folder. -/
def FileTree.scriptPaths (t : FileTree) (folder : Path) (extension : String) (recursive : Bool) :
    Except JobFault (List Path) :=
  (t.scripts folder extension recursive).map fun locs => locs.map folder.below

/-- The jobs of a folder. -/
def FileTree.folderJobs (t : FileTree) (source target : Path)
    (sourceExtension targetExtension : String) (recursive : Bool) : Except JobFault (List Job) :=
  (t.scripts source sourceExtension recursive).map fun locs =>
    locs.map fun names => ⟨source.below names, (target.below names).withExtension targetExtension⟩

/-- A program and the warnings of its script. -/
structure Compiled where
  program : Program
  warnings : List String

/-- Compiles the script at a path. -/
def FileTree.compileAt (t : FileTree) (lang : Language) (source : Path) :
    Except JobFault Compiled :=
  match t.readText source with
  | .error fault => .error (.read source fault)
  | .ok text =>
    let outcome := compile lang text
    match outcome.result with
    | .error fault => .error (.compile source fault)
    | .ok program => .ok ⟨program, outcome.warnings⟩

/-- The tree with the folder of a path created, or the fault that prevents it. -/
def FileTree.makeRoom (t : FileTree) (target : Path) : FileTree × Option JobFault :=
  match target.parent? with
  | none => (t, none)
  | some folder =>
    if folder.text.isEmpty then (t, none)
    else
      let (t, fault) := t.createFolders folder
      (t, fault.map (.createFolder folder))

/-- Does a job: the script is compiled first, so that a script at fault leaves the tree as it is. -/
def Job.run (lang : Language) (t : FileTree) (job : Job) : FileTree × Except JobFault Compiled :=
  match t.compileAt lang job.source with
  | .error fault => (t, .error fault)
  | .ok compiled =>
    match t.makeRoom job.target with
    | (t, some fault) => (t, .error fault)
    | (t, none) =>
      match t.write job.target compiled.program.save.toUTF8 with
      | .ok t => (t, .ok compiled)
      | .error fault => (t, .error (.write job.target fault))

end SceneScript
