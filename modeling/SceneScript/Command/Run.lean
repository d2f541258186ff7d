import SceneScript.Batch.Config
import SceneScript.Batch.Pool
import SceneScript.Command.Options

/-!
# Running a command

A command works on a file tree and ends with what it prints, an exit code and the tree it leaves.  The exit
code is 0 if all went well, 1 if a script or the configuration is at fault, and 2 if the command line
makes no sense.
-/

namespace SceneScript.Command

/-- Why a command fails. -/
inductive CommandFault where
  | missingConfig (path : Path)
  | badConfig (cause : ConfigFault)
  | missingSource (path : Path)
  | missingFolder (path : Path)
  | missingPath (path : Path)
  | job (cause : JobFault)
  /-- That many scripts were not compiled. -/
  | failures (count : Nat)

def CommandFault.message : CommandFault → String
  | missingConfig path => "配置文件不存在: " ++ path.text
  | badConfig cause => cause.message
  | missingSource path => "源文件不存在: " ++ path.text
  | missingFolder path => "源目录不存在: " ++ path.text
  | missingPath path => "路径不存在: " ++ path.text
  | job cause => cause.message
  | failures count => s!"{count} 个文件编译失败"

/-- What a command has printed, and the tree it leaves. -/
structure Result where
  exit : Nat
  output : List String
  errors : List String
  tree : FileTree

/-- A command that fails after printing something. -/
def Result.failed (output errors : List String) (t : FileTree) (fault : CommandFault) : Result :=
  ⟨1, output, errors ++ ["❌ " ++ fault.message], t⟩

/-- The line for a script that was not compiled. -/
def failureLine (failure : Path × JobFault) : String :=
  "  ❌ " ++ failure.1.text ++ ": " ++ failure.2.message

/-- The line that logs a warning on a script. -/
def warningLine (warning : Path × String) : String :=
  "WARN " ++ warning.2 ++ " source=" ++ warning.1.text

/-- The end of a command that has worked on scripts, after it has logged some lines. -/
def finish (lang : Language) (output logged : List String) (r : Report) (t : FileTree) : Result :=
  let name := lang.name
  let good := r.succeeded.length
  let bad := r.failed.length
  let output := output ++ ["", s!"语言表: {name}，成功 {good} 个，失败 {bad} 个"]
  let errors := logged ++ r.failed.map failureLine
  if r.failed.isEmpty then ⟨0, output, errors, t⟩
  else .failed output errors t (.failures bad)

/-- The jobs of a compilation. -/
def compileJobs (t : FileTree) (c : Config) (path : Path) (target : Option Path) (mode : Mode) :
    Except CommandFault (List Job) :=
  match mode with
  | .file =>
    if t.isFile path then .ok [⟨path, target.getD (path.withExtension c.targetExtension)⟩]
    else .error (.missingSource path)
  | .folder =>
    if t.isFolder path then
      match t.folderJobs path (target.getD path) c.sourceExtension c.targetExtension c.recursive with
      | .ok jobs => .ok jobs
      | .error fault => .error (.job fault)
    else .error (.missingFolder path)

/-- The line for a script that was compiled. -/
def successLine (job : Job) : String := "  ✅ " ++ job.source.text ++ " -> " ++ job.target.text

/-- Compiles a script, or the scripts of a folder.  Warnings are logged unless all is to be quiet. -/
def compile (t : FileTree) (c : Config) (lang : Language) (path : Path) (target : Option Path)
    (mode : Mode) (quiet : Bool) : Result :=
  match compileJobs t c path target mode with
  | .error fault => .failed [] [] t fault
  | .ok [] => ⟨0, ["⚠️ 没有找到 *." ++ c.sourceExtension ++ " 文件: " ++ path.text], [], t⟩
  | .ok jobs =>
    let (t, report) := runJobs lang jobs c.jobs t
    let done := jobs.filter fun job => report.succeeded.contains job.source
    let logged := if quiet then [] else report.warnings.map warningLine
    finish lang (done.map successLine) logged report t

/-- The scripts to check. -/
def checkSources (t : FileTree) (c : Config) (path : Path) : Except CommandFault (List Path) :=
  if t.isFolder path then
    match t.scriptPaths path c.sourceExtension c.recursive with
    | .ok sources => .ok sources
    | .error fault => .error (.job fault)
  else if t.pathExists path then .ok [path]
  else .error (.missingPath path)

/-- The lines for a script that was checked. -/
def checkLines (source : Path) : Except JobFault Compiled → List String
  | .error _ => []
  | .ok compiled =>
    let place := source.text
    let count := compiled.program.code.length
    s!"  ✅ {place} ({count} 条指令)" :: compiled.warnings.map ("     ⚠️ " ++ ·)

/-- Compiles scripts without saving anything.  Warnings are part of the output. -/
def check (t : FileTree) (c : Config) (lang : Language) (path : Path) : Result :=
  match checkSources t c path with
  | .error fault => .failed [] [] t fault
  | .ok sources =>
    let results := sources.map fun source => (source, t.compileAt lang source)
    let report := results.foldl (fun r p => r.add p.1 p.2) .empty
    finish lang (results.flatMap fun p => checkLines p.1 p.2) [] report t

/-- The configuration, with what the command line says about it. -/
def settings (t : FileTree) (config : Option Path) (lang : Option String) (recursive : Bool)
    (jobs : Option Nat) : Except CommandFault Config :=
  match config.filter fun path => !t.pathExists path with
  | some path => .error (.missingConfig path)
  | none =>
    let c := Config.load t (config.getD ⟨Config.fileName⟩)
    .ok { c with
      lang := lang.getD c.lang
      recursive := c.recursive || recursive
      jobs := jobs.getD c.jobs }

/-- Goes on with a configuration that is not refused. -/
def withSettings (t : FileTree) (settings : Except CommandFault Config)
    (go : Config → Language → Result) : Result :=
  match settings with
  | .error fault => .failed [] [] t fault
  | .ok c =>
    match c.fault?, c.language with
    | some fault, _ => .failed [] [] t (.badConfig fault)
    | none, .error fault => .failed [] [] t (.badConfig fault)
    | none, .ok lang => go c lang

def versionLine : String := "galc 0.1.0"

def helpLines : List String :=
  ["GAL 编译工具 - 将 *.gal 脚本编译为 *.node 指令文件", "",
    "galc compile [--target PATH] [--lang NAME] [--batch file|folder] [--recursive] [--jobs N] PATH",
    "galc check [--lang NAME] [--recursive] PATH", "",
    "--config PATH, --verbose, --quiet, --help, --version"]

/-- Runs the command that the words ask for. -/
def run (words : List String) (t : FileTree) : Result :=
  match parse words with
  | .misuse => ⟨2, [], helpLines, t⟩
  | .help => ⟨0, helpLines, [], t⟩
  | .version => ⟨0, [versionLine], [], t⟩
  | .compile config path target lang mode recursive jobs quiet =>
    withSettings t (settings t config lang recursive jobs) fun c lang =>
      compile t c lang path target mode quiet
  | .check config path lang recursive =>
    withSettings t (settings t config lang recursive none) fun c lang => check t c lang path

end SceneScript.Command
