import SceneScript.Command.Run

/-!
# The command line

The working directory is read into a file tree, the command runs on that, and the files that it has changed
are written back.
-/

namespace SceneScript

/-- What lies below the working directory. -/
def readWorkingDirectory : IO FileTree := do
  let root ← IO.currentDir
  let depth := root.components.length
  let mut entries : List (Location × Entry) := []
  for path in ← root.walkDir do
    let loc := path.components.drop depth
    match (← path.symlinkMetadata).type with
    | .dir => entries := (loc, .folder) :: entries
    | .file => entries := (loc, .file (← IO.FS.readBinFile path)) :: entries
    | _ => pure ()
  return ⟨entries⟩

/-- Writes files below the working directory. -/
def writeFiles (files : List (String × ByteArray)) : IO Unit := do
  for (name, content) in files do
    let folder := ((Path.mk name).parent?.map Path.text).getD ""
    if !folder.isEmpty then IO.FS.createDirAll folder
    IO.FS.writeBinFile name content

end SceneScript

open SceneScript in
/-- Runs a command in the working directory. -/
def main (args : List String) : IO UInt32 := do
  let before ← readWorkingDirectory
  let result := Command.run args before
  writeFiles (result.tree.changesSince before)
  for line in result.output do IO.println line
  for line in result.errors do IO.eprintln line
  return result.exit.toUInt32
