import SceneScript.Decimal.Integer
import SceneScript.Storage.Path

/-!
# Options of the command line

The command line names a command, `compile` or `check`, with options before and after it, or asks for
`help`, on a command if one likes.  Long options are written `--name value` or `--name=value`, short
ones `-n value`, `-nvalue` or `-n=value`, and short options without a value may share a dash.  After
`--` every word is a path.

The options for the configuration file and for the amount of logging may stand before or after the
command, and then count once in each place; all others stand after it.
-/

namespace SceneScript.Command

/-- The options. -/
inductive Switch where
  | config
  | verbose
  | quiet
  | help
  | version
  | target
  | lang
  | batch
  | recursive
  | jobs
deriving DecidableEq

namespace Switch

/-- Whether a value follows the option. -/
def takesValue : Switch → Bool
  | config | target | lang | batch | jobs => true
  | verbose | quiet | help | version | recursive => false

def longName : Switch → String
  | config => "config"
  | verbose => "verbose"
  | quiet => "quiet"
  | help => "help"
  | version => "version"
  | target => "target"
  | lang => "lang"
  | batch => "batch"
  | recursive => "recursive"
  | jobs => "jobs"

def shortName : Switch → Option Char
  | verbose => some 'v'
  | quiet => some 'q'
  | help => some 'h'
  | version => some 'V'
  | target => some 't'
  | recursive => some 'r'
  | jobs => some 'j'
  | config | lang | batch => none

end Switch

/-- Where on the command line an option stands. -/
inductive Scope where
  /-- Before the command. -/
  | top
  | compile
  | check
deriving DecidableEq

/-- The options that may stand in a place. -/
def Scope.switches : Scope → List Switch
  | top => [.config, .verbose, .quiet, .help, .version]
  | compile =>
    [.config, .verbose, .quiet, .help, .target, .lang, .batch, .recursive, .jobs]
  | check => [.config, .verbose, .quiet, .help, .lang, .recursive]

/-- The command that a word names. -/
def Scope.ofWord? (word : String) : Option Scope :=
  if word = "compile" then some compile else if word = "check" then some check else none

/-- Whether a single script or all scripts of a folder are compiled. -/
inductive Mode where
  | file
  | folder
deriving DecidableEq

/-- Reads a number of workers below `2 ^ 64`: digits, with a plus sign if one likes. -/
def readJobs? (value : String) : Option Nat :=
  let digits := match value.toList with
    | '+' :: cs => cs
    | cs => cs
  (Decimal.readNat? digits).bind fun n => if n < UInt64.size then some n else none

/-- Reads a mode. -/
def readMode? (value : String) : Option Mode :=
  if value = "file" then some .file else if value = "folder" then some .folder else none

/-- What has been given in one place. -/
structure Given where
  config : Option Path
  verbose : Nat
  quiet : Bool
  target : Option Path
  lang : Option String
  batch : Option Mode
  recursive : Bool
  jobs : Option Nat
  path : Option Path

def Given.nothing : Given := ⟨none, 0, false, none, none, none, false, none, none⟩

/-- What the command line asks for. -/
inductive Request where
  /-- The command line makes no sense. -/
  | misuse
  | help
  | version
  | compile (config : Option Path) (path : Path) (target : Option Path) (lang : Option String)
      (mode : Mode) (recursive : Bool) (jobs : Option Nat) (quiet : Bool)
  | check (config : Option Path) (path : Path) (lang : Option String) (recursive : Bool)

namespace Given

/-- A path given as a value, which must not be empty. -/
def readPath? (value : String) : Option Path := if value.isEmpty then none else some ⟨value⟩

/-- A value given for an option that has none yet. -/
def once {α : Type} (old : Option α) (new : Option α) : Option (Option α) :=
  match old, new with
  | none, some a => some (some a)
  | _, _ => none

/-- The option with its value; it must be of use and must not be there already. -/
def setValue (g : Given) (switch : Switch) (value : String) : Option Given :=
  match switch with
  | .config => (once g.config (readPath? value)).map fun v => { g with config := v }
  | .target => (once g.target (readPath? value)).map fun v => { g with target := v }
  | .lang => (once g.lang (some value)).map fun v => { g with lang := v }
  | .batch => (once g.batch (readMode? value)).map fun v => { g with batch := v }
  | .jobs => (once g.jobs (readJobs? value)).map fun v => { g with jobs := v }
  | _ => none

/-- A word that is no option. -/
def setPath (g : Given) (word : String) : Option Given :=
  (once g.path (readPath? word)).map fun v => { g with path := v }

/-- The option without a value; only the one for more logging may be repeated. -/
def setFlag (g : Given) (switch : Switch) : Option Given :=
  match switch with
  | .verbose => some { g with verbose := g.verbose + 1 }
  | .quiet => if g.quiet then none else some { g with quiet := true }
  | .recursive => if g.recursive then none else some { g with recursive := true }
  | _ => none

/-- Whether the options of one place go together. -/
def isSound (g : Given) : Bool := !(g.quiet && 0 < g.verbose)

end Given

/-- The effect of a word. -/
inductive Effect where
  | misuse
  | help
  | version
  /-- Go on, perhaps with an option that waits for its value. -/
  | go (given : Given) (waiting : Option Switch)

/-- The option in a place with that long name. -/
def Scope.long? (scope : Scope) (name : List Char) : Option Switch :=
  scope.switches.find? fun s => s.longName.toList == name

/-- The option in a place with that letter. -/
def Scope.short? (scope : Scope) (letter : Char) : Option Switch :=
  scope.switches.find? fun s => s.shortName = some letter

/-- The effect of an option that takes no value. -/
def Given.applyFlag (g : Given) (switch : Switch) : Effect :=
  match switch with
  | .help => .help
  | .version => .version
  | switch =>
    match g.setFlag switch with
    | some g => .go g none
    | none => .misuse

/-- The effect of an option and its value. -/
def Given.applyValue (g : Given) (switch : Switch) (value : List Char) : Effect :=
  match g.setValue switch (String.ofList value) with
  | some g => .go g none
  | none => .misuse

/-- The effect of a word after its two dashes. -/
def readLong (scope : Scope) (g : Given) (cs : List Char) : Effect :=
  match scope.long? (cs.takeWhile (· != '=')), cs.dropWhile (· != '=') with
  | none, _ => .misuse
  | some switch, [] => if switch.takesValue then .go g (some switch) else g.applyFlag switch
  | some switch, _ :: value => if switch.takesValue then g.applyValue switch value else .misuse

/-- The effect of the letters after one dash. -/
def readShort (scope : Scope) : Given → List Char → Effect
  | g, [] => .go g none
  | g, c :: cs =>
    match scope.short? c with
    | none => .misuse
    | some switch =>
      if switch.takesValue then
        match cs with
        | [] => .go g (some switch)
        | '=' :: value => g.applyValue switch value
        | value => g.applyValue switch value
      else
        match g.applyFlag switch with
        | .go g _ => readShort scope g cs
        | other => other

/-- What a command asks for, with the options before and after it. -/
def request (scope : Scope) (before g : Given) : Request :=
  match g.path with
  | none => .misuse
  | some path =>
    if before.isSound && g.isSound then
      let config := g.config.or before.config
      match scope with
      | .top => .misuse
      | .compile =>
        .compile config path g.target g.lang (g.batch.getD .file) g.recursive g.jobs
          (before.quiet || g.quiet)
      | .check => .check config path g.lang g.recursive
    else .misuse

/-- Reads the words after `help`, which may name one command. -/
def readTopic : List String → Request
  | [] => .help
  | [topic] => if topic = "help" || (Scope.ofWord? topic).isSome then .help else .misuse
  | _ => .misuse

/-- Reads the words after `--`. -/
def readPaths (scope : Scope) (before : Given) : Given → List String → Request
  | g, [] => request scope before g
  | g, word :: words =>
    match g.setPath word with
    | some g => readPaths scope before g words
    | none => .misuse

/-- Reads the words of a command line from a place on.  `before` holds what stands before the command, and
`waiting` the option whose value is due. -/
def readWords : Scope → Given → Given → Option Switch → List String → Request
  | .top, _, _, _, [] => .misuse
  | _, _, _, some _, [] => .misuse
  | scope, before, g, none, [] => request scope before g
  | scope, before, g, waiting, word :: words =>
    match word.toList, waiting with
    | ['-', '-'], none =>
      if scope = .top then .misuse else readPaths scope before g words
    | '-' :: '-' :: cs, none =>
      match readLong scope g cs with
      | .go g waiting => readWords scope before g waiting words
      | .misuse => .misuse
      | .help => .help
      | .version => .version
    | '-' :: c :: cs, none =>
      match readShort scope g (c :: cs) with
      | .go g waiting => readWords scope before g waiting words
      | .misuse => .misuse
      | .help => .help
      | .version => .version
    | '-' :: _ :: _, some _ => .misuse
    | value, some switch =>
      match g.applyValue switch value with
      | .go g waiting => readWords scope before g waiting words
      | _ => .misuse
    | _, none =>
      if scope = .top then
        match Scope.ofWord? word with
        | some command => readWords command g .nothing none words
        | none => if word = "help" then readTopic words else .misuse
      else
        match g.setPath word with
        | some g => readWords scope before g none words
        | none => .misuse

/-- What a command line asks for. -/
def parse (words : List String) : Request := readWords .top .nothing .nothing none words

end SceneScript.Command
