import SceneScript.Json.Decode
import SceneScript.Json.Reader
import SceneScript.Language
import SceneScript.Storage.FileTree

/-!
# Configuration

A configuration is read from a JSON file.  Every field may be left out; a file that is missing or cannot be
read as a configuration counts as an empty one.
-/

namespace SceneScript

/-- How scripts are compiled. -/
structure Config where
  lang : String
  recursive : Bool
  sourceExtension : String
  targetExtension : String
  jobs : Nat
deriving DecidableEq

/-- Why a configuration is refused. -/
inductive ConfigFault where
  | unknownLanguage (lang : String)
  | noJobs
  /-- The extension of that field is empty or starts with a dot. -/
  | badExtension (field extension : String)
  | sameExtension (extension : String)
deriving DecidableEq

def ConfigFault.message : ConfigFault → String
  | unknownLanguage lang => s!"未知的语言表: '{lang}'（可选：default、zh）"
  | noJobs => "jobs 必须至少为 1"
  | badExtension field extension => s!"{field} 必须是不含点的扩展名: '{extension}'"
  | sameExtension extension => s!"源文件与输出文件扩展名相同: '{extension}'"

namespace Config

def default : Config := ⟨"default", false, "gal", "node", 1⟩

/-- The name of the file that is read if no other is given. -/
def fileName : String := "galc.json"

def decode : Json.Decoder Config := fun depth j =>
  (Json.fields? ["lang", "recursive", "source_extension", "target_extension", "jobs"] depth j).bind
    fun r =>
      match r.withDefault 0 default.lang Json.Decode.text,
        r.withDefault 1 default.recursive Json.Decode.bool,
        r.withDefault 2 default.sourceExtension Json.Decode.text,
        r.withDefault 3 default.targetExtension Json.Decode.text,
        r.withDefault 4 default.jobs Json.Decode.nat64 with
      | some lang, some recursive, some source, some target, some jobs =>
        some ⟨lang, recursive, source, target, jobs⟩
      | _, _, _, _, _ => none

/-- The configuration that a text holds. -/
def parse? (text : String) : Option Config := (Json.parse? text).bind (decode Json.deepest)

/-- The configuration in the file at a path. -/
def load (t : FileTree) (p : Path) : Config :=
  match t.readText p with
  | .ok text => (parse? text).getD default
  | .error _ => default

def language (c : Config) : Except ConfigFault Language :=
  match Language.ofName? c.lang with
  | some lang => .ok lang
  | none => .error (.unknownLanguage c.lang)

/-- Whether an extension is empty or starts with a dot. -/
def isBadExtension (extension : String) : Bool :=
  match extension.toList with
  | [] => true
  | c :: _ => c == '.'

/-- The first reason to refuse the configuration, if there is one. -/
def fault? (c : Config) : Option ConfigFault :=
  match c.language with
  | .error fault => some fault
  | .ok _ =>
    if c.jobs = 0 then some .noJobs
    else if isBadExtension c.sourceExtension then
      some (.badExtension "source_extension" c.sourceExtension)
    else if isBadExtension c.targetExtension then
      some (.badExtension "target_extension" c.targetExtension)
    else if c.sourceExtension = c.targetExtension then some (.sameExtension c.sourceExtension)
    else none

end Config

end SceneScript
