import FreshDocs.Engine
/-!
The command line. It has two commands, which analyze a project and print figures or a health
report, and a few options that may stand before or after the command.
-/

namespace FreshDocs.CommandLine

/-- The level at which arguments are read: before a command, or after it. -/
inductive Level where
  | top
  | scan
  | health
  deriving DecidableEq

/-- What was given so far. -/
structure Given where
  config : Option String := none
  logJson : Bool := false
  root : Option String := none
  json : Bool := false
  format : Option String := none
  deriving DecidableEq

inductive Parsed where
  | usageError
  | help
  | version
  /-- The end of the arguments. -/
  | done (given : Given)
  /-- A command, with the arguments after it. -/
  | command (level : Level) (given : Given) (rest : List String)

/-- Options with a value; none may be given twice, and a value is not empty. -/
def setConfig (given : Given) (value : String) : Option Given :=
  if given.config.isSome ∨ value.isEmpty then none else some { given with config := some value }

def setFormat (given : Given) (value : String) : Option Given :=
  if given.format.isSome ∨ ¬["json", "csv"].contains value then none
  else some { given with format := some value }

/-- The option of a long name that takes a value. -/
def valued? (level : Level) : String → Option (Given → String → Option Given)
  | "config" => some setConfig
  | "format" => if level = .health then some setFormat else none
  | _ => none

/-- The option of a long name that takes none. -/
def plain? (level : Level) (given : Given) : String → Option Given
  | "log-json" => if given.logJson then none else some { given with logJson := true }
  | "json" =>
    if level = .scan ∧ ¬given.json then some { given with json := true } else none
  | _ => none

/-- Whether an argument can be the value of the option before it. -/
def isValue (argument : String) : Bool :=
  argument.toList.head? ≠ some '-' || argument = "-"

/-- An argument that is no option. Before a command it has to be one. -/
def positional (level : Level) (given : Given) (argument : String) : Option Given :=
  if level = .top ∨ given.root.isSome ∨ argument.isEmpty then none
  else some { given with root := some argument }

def help (topics : List String) : Parsed :=
  match topics with
  | [] | ["scan"] | ["health"] | ["help"] => .help
  | _ => .usageError

/-- A name and, after an equals sign, a value. -/
def splitOption (text : List Char) : String × Option String :=
  let name := text.takeWhile (· ≠ '=')
  match text.drop name.length with
  | _ :: value => (String.ofList name, some (String.ofList value))
  | [] => (String.ofList name, none)

/-- The value behind a short option in the same argument. -/
def attached (text : List Char) : String :=
  match text with
  | '=' :: value => String.ofList value
  | value => String.ofList value

/-- What the next step of reading is. -/
inductive Step where
  | stop (parsed : Parsed)
  | next (given : Given)
  /-- The option takes the next argument. -/
  | value (set : String → Option Given)

def Step.ofGiven (given : Option Given) : Step :=
  match given with
  | some given => .next given
  | none => .stop .usageError

def longOption (level : Level) (given : Given) (text : List Char) : Step :=
  match splitOption text with
  | ("help", none) => .stop .help
  | ("version", none) => .stop (if level = .top then .version else .usageError)
  | (name, value) =>
    match valued? level name, value with
    | some set, some value => .ofGiven (set given value)
    | some set, none => .value (set given)
    | none, some _ => .stop .usageError
    | none, none => .ofGiven (plain? level given name)

def shortOption (level : Level) (given : Given) (text : List Char) : Step :=
  match text with
  | 'h' :: _ => .stop .help
  | 'V' :: _ => .stop (if level = .top then .version else .usageError)
  | ['c'] => .value (setConfig given)
  | 'c' :: value => .ofGiven (setConfig given (attached value))
  | _ => .stop .usageError

def option (level : Level) (given : Given) (argument : String) : Step :=
  match argument.toList with
  | '-' :: '-' :: text => longOption level given text
  | '-' :: text => shortOption level given text
  | _ => .stop .usageError

/-- Arguments after two hyphens, none of which is an option. -/
def readPositionals (level : Level) (given : Given) : List String → Parsed
  | [] => .done given
  | argument :: rest =>
    match positional level given argument with
    | some given => readPositionals level given rest
    | none => .usageError

/-- Reads the arguments of one level. -/
def read (level : Level) (given : Given) : List String → Parsed
  | [] => .done given
  | "--" :: rest => readPositionals level given rest
  | argument :: rest =>
    if isValue argument then
      match level, argument with
      | .top, "scan" => .command .scan given rest
      | .top, "health" => .command .health given rest
      | .top, "help" => help rest
      | level, argument =>
        match positional level given argument with
        | some given => read level given rest
        | none => .usageError
    else
      match option level given argument with
      | .stop parsed => parsed
      | .next given => read level given rest
      | .value set =>
        match rest with
        | value :: rest =>
          if isValue value then
            match set value with
            | some given => read level given rest
            | none => .usageError
          else .usageError
        | [] => .usageError

/-- What the arguments ask for. -/
inductive Request where
  | usageError
  | help
  | version
  | command (level : Level) (given : Given)

/-- Reads all arguments. An option after the command takes the place of the same one before
it. -/
def request (arguments : List String) : Request :=
  let last (whole : Given → Request) : Parsed → Request
    | .usageError | .command .. => .usageError
    | .help => .help
    | .version => .version
    | .done given => whole given
  match read .top {} arguments with
  | .command level given rest =>
    last (fun inner => .command level { inner with config := inner.config <|> given.config })
      (read level {} rest)
  | parsed => last (fun _ => .usageError) parsed

def Given.directory (given : Given) : String :=
  given.root.getD "."

/-- The paths that are looked at. -/
def Request.places : Request → List String
  | .command _ given => given.directory :: given.config.toList
  | _ => []

/-- What the program leaves behind: its exit status and what it has printed. -/
structure Outcome where
  code : Nat
  output : String := ""
  deriving DecidableEq

def usageError : Outcome := { code := 2 }
def failed : Outcome := { code := 1 }

/-- The program's name and version. -/
def versionText : String := "livedoc 0.1.0"

def openEngine (now : Timestamp) (files : Files) (settings : Settings) (root : Path) :
    Option Engine :=
  match files.canonicalize root with
  | .error _ => none
  | .ok root => (Engine.start now files { root, settings, background := false }).toOption

def scanText (engine : Engine) (snapshot : Snapshot) : String :=
  let stats := engine.stats
  String.join <| List.map (· ++ "\n")
    ["Project: " ++ engine.project.root.text,
     "  Files analyzed: " ++ toString snapshot.manifest.size,
     "  Elapsed: 0ms",
     "  Cached analyses: " ++ toString stats.artifacts.analyses.entryCount,
     "  Analysis cache size: " ++ toString stats.artifacts.analyses.totalSize ++ " bytes",
     "  Dependency edges: " ++ toString stats.artifacts.dependencyEdges,
     "  Snapshots: " ++ toString stats.snapshots.entryCount]

def scanJson (engine : Engine) (snapshot : Snapshot) : String :=
  let summary : Json := .object
    [("root", toJson engine.project.root), ("files", toJson snapshot.manifest.size),
     ("elapsed_ms", toJson 0), ("snapshot", toJson snapshot)]
  (Json.record [("scan", summary), ("stats", toJson engine.stats)]).pretty ++ "\n"

/-- Analyzes a project and prints figures. No time passes while it does. -/
def scan (engine : Engine) (json : Bool) : Outcome :=
  match engine.scan with
  | (.error _, _) => failed
  | (.ok snapshot, engine) =>
    { code := 0, output := if json then scanJson engine snapshot else scanText engine snapshot }

/-- Analyzes a project twice, so that the report shows how well the stores serve, and prints a
report. -/
def health (engine : Engine) (format : String) : Outcome :=
  match engine.scan with
  | (.error _, _) => failed
  | (.ok _, engine) =>
    let (_, snapshots) := engine.workspace.snapshots.invalidate engine.project.root
    match Engine.scan { engine with workspace := { engine.workspace with snapshots } } with
    | (.error _, _) => failed
    | (.ok _, engine) =>
      let (report, engine) := engine.health
      { code := 0
        output :=
          if format = "csv" then engine.monitor.exportTable else (toJson report).pretty ++ "\n" }

def execute (now : Timestamp) (files : Files) (level : Level) (given : Given) : Outcome :=
  let settings : Option Settings :=
    match given.config with
    | some path => (Settings.load files ⟨path⟩).toOption
    | none => some {}
  match settings.bind (openEngine now files · ⟨given.directory⟩) with
  | none => failed
  | some engine =>
    match level with
    | .scan => scan engine given.json
    | .health => health engine (given.format.getD "json")
    | .top => usageError

def run (now : Timestamp) (files : Files) (arguments : List String) : Outcome :=
  match request arguments with
  | .usageError => usageError
  | .help => { code := 0 }
  | .version => { code := 0, output := versionText ++ "\n" }
  | .command level given => execute now files level given

end FreshDocs.CommandLine
