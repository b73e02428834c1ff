import CodeSweep.CommandLine.Help
import CodeSweep.Config
import CodeSweep.Diff.Results

/-!
# The command line

`run` sweeps with the codemods of a configuration file, `apply` takes one stage of find and replace
over a local directory, `languages` lists what can be parsed. A command prints to two streams and
ends with a code: 0 when it could do its work, 1 when it could not, 2 when it was not understood.
-/

namespace CodeSweep.CommandLine

/-- What a command printed, and the code it ended with. -/
structure Console where
  stdout : String := ""
  stderr : String := ""
  code : Nat := 0
deriving DecidableEq, Inhabited

/-- What is asked for. -/
inductive Request where
  | run (config : Path) (dry : Bool) (workspace : Option Path)
  | apply (path : Path) (language : String) (rule : Rule) (replace : String) (dry : Bool)
  | languages
deriving DecidableEq, Inhabited

/-- The name of the program. -/
def program : String := "codemod"

/-! ### Reading the request -/

/-- What `run` takes. -/
def runForm : Form where
  name := "run"
  operand := some { name := "config", about := "Path to the YAML configuration" }
  switches := [
    { name := "dry-run", kind := .nothing, about := "Transform without writing files or publishing" },
    { name := "workspace", letter := some 'w', kind := .path
      about := "Overrides the configured workspace" }]
  about := "Run the codemods of a configuration file"

/-- What `apply` takes. -/
def applyForm : Form where
  name := "apply"
  operand := some { name := "path", missing := some ".", about := "Directory to transform" }
  switches := [
    { name := "language", letter := some 'l', kind := .text, required := true
      about := "Language to parse files as (e.g., \"typescript\", \"rust\")" },
    { name := "query", letter := some 'q', kind := .text, required := true
      about := "Tree-sitter query pattern" },
    { name := "replace", letter := some 'r', kind := .text, required := true
      about := "Replacement text; may reference meta-variables" },
    { name := "pattern", letter := some 'p', kind := .text
      about := "Meta-variable pattern matched against each node" },
    { name := "capture", letter := some 'c', kind := .text
      about := "Only replace nodes bound to this capture" },
    { name := "dry-run", kind := .nothing, about := "Preview changes without applying" }]
  about := "Apply one find-and-replace stage to a local directory"

/-- What `languages` takes. -/
def languagesForm : Form where
  name := "languages"
  about := "Show supported languages"

/-- All commands, each with the request that its arguments make. -/
def commands : List (Form × (Given → Request)) := [
  (runForm, fun given =>
    .run ⟨runForm.operandIn given⟩ (given.has "dry-run") ((given.lookup "workspace").map Path.mk)),
  (applyForm, fun given =>
    .apply ⟨applyForm.operandIn given⟩ (given.text "language")
      (Rule.make (given.text "query") (given.lookup "capture") (given.lookup "pattern"))
      (given.text "replace") (given.has "dry-run")),
  (languagesForm, fun _ => .languages)]

/-- What help is asked for. -/
def helpTopic : List String → Stop
  | [] => .help none
  | [name] =>
    if name == "help" || commands.any (·.1.name == name) then .help (some name) else .misuse
  | _ => .misuse

/-- Reads the arguments of the program. -/
def readRequest : List String → Except Stop Request
  | [] => .error .misuse
  | arg :: rest =>
    match Token.ofArg arg with
    | .letters ('h' :: _) | .named "help" none => .error (.help none)
    | .letters ('V' :: _) | .named "version" none => .error .version
    | .word "help" => .error (helpTopic rest)
    | .word name =>
      match commands.find? (·.1.name == name) with
      | some (form, request) => (form.read rest).map request
      | none => .error .misuse
    | _ => .error .misuse

/-! ### Help -/

/-- What `help` does. -/
def helpAbout : String := "Print this message or the help of the given subcommand(s)"

/-- The help text of the program. -/
def overview : String :=
  helpText "Run codemods across repositories and open pull requests" s!"{program} <COMMAND>"
    (part "Commands" (commands.map (fun c => (c.1.name, c.1.about)) ++ [("help", helpAbout)]) ++
      part "Options" [helpRow, ("-V, --version", "Print version")])

/-- The help text on a topic. -/
def helpOn : Option String → String
  | none => overview
  | some name =>
    match commands.find? (·.1.name == name) with
    | some (form, _) => form.help program
    | none =>
      helpText helpAbout s!"{program} help [COMMAND]..."
        (part "Arguments" [("[COMMAND]...", "Print help for the subcommand(s)")])

/-- What is printed when reading stopped. -/
def Stop.console : Stop → Console
  | .misuse => { stderr := overview, code := 2 }
  | .help topic => { stdout := helpOn topic }
  | .version => { stdout := s!"{program} 0.1.0\n" }

/-! ### Failing -/

/-- Why a command could not do its work: what it was about, then causes, outermost first. -/
structure Failure where
  context : String
  causes : List String := []
deriving DecidableEq, Inhabited

/-- A fault seen as a failure of what was being done. -/
def during {α : Type} (context : String) (result : Except Fault α) : Except Failure α :=
  result.mapError fun fault => { context, causes := fault.chain }

/-- A text with its lines after the first indented. -/
def indented (width : Nat) (text : String) : String :=
  Text.replaceAll text "\n" ("\n".pushn ' ' width)

/-- A cause in a list of several, with its number in five columns. -/
def numbered (number : Nat) (cause : String) : String :=
  let digits := toString number
  "".pushn ' ' (5 - digits.length) ++ digits ++ ": " ++ indented 7 cause

/-- The causes, each on lines of its own. -/
def causeLines : List String → List String
  | [] => []
  | [cause] => ["    " ++ indented 4 cause]
  | causes => causes.zipIdx.map fun (cause, number) => numbered number cause

/-- The failure in words. -/
def Failure.text (f : Failure) : String :=
  let causes :=
    if f.causes.isEmpty then "" else "\n\nCaused by:\n" ++ "\n".intercalate (causeLines f.causes)
  s!"Error: {f.context}{causes}\n"

/-- A console that ends with a failure, after printing. -/
def Failure.console (printed : String) (f : Failure) : Console :=
  { stdout := printed, stderr := f.text, code := 1 }

/-! ### Doing the work -/

/-- What commands find around them. -/
structure Surroundings (σ : Type) where
  engine : Engine
  run : Command → Disk × σ → Reply × Disk × σ
  /-- The hosting service, when there is a token for it. -/
  service? : Option (Hosting σ) := none
  /-- The directory for temporary files. -/
  temporary : Path := ⟨"/tmp"⟩

variable {σ : Type}

/-- A line on a published repository. -/
def publicationLine (p : Publication) : String :=
  let outcome := match p.outcome with
    | .opened url => url
    | .alreadyOpen => "pull request already open"
    | .commitFailed fault | .pushFailed fault => fault.message
  s!"  {p.address}: {outcome}\n"

/-- What is printed of a codemod: what it came to, what a dry run would change, what was published. -/
def outcomeText (dry : Bool) (name : String) (o : SweepOutcome) : String :=
  match o.fault with
  | some fault => s!"{name}: failed: {fault.message}\n"
  | none =>
    let done := Codemod.successes o.results
    let changed := (done.filter (·.changed)).length
    let failed := (Codemod.failures o.results).length
    let preview :=
      if dry then Diff.ofResults true done ++ (Diff.Summary.ofResults done).text ++ "\n" else ""
    s!"{name}: {changed} file(s) changed, {failed} failed\n" ++ preview ++
      String.join (o.publications.map publicationLine)

/-- The sweep that a configuration asks for. -/
def plan (here : Surroundings σ) (disk : Disk) (path : Path) (dry : Bool) (workspace : Option Path) :
    Except Failure (Sweep × World σ × List Campaign) := do
  let config ← during s!"Failed to load {path.text}" (Config.load here.engine disk path)
  let campaigns ← during "Invalid codemod configuration" (config.campaigns here.engine)
  let hosting ← during "Failed to set up hosting" (config.hostingWith here.service?)
  let sweep : Sweep :=
    { workspace := workspace.getD (config.workspaceIn here.temporary)
      repositories := config.repositories, dry }
  return (sweep, { run := here.run, hosting }, campaigns)

/-- Sweeps as a configuration asks, and tells of each codemod in order of names. -/
def runConfig (here : Surroundings σ) (path : Path) (dry : Bool) (workspace : Option Path) :
    StateM (Session σ) Console := do
  match plan here (← get).disk path dry workspace with
  | .error failure => return failure.console ""
  | .ok (sweep, world, campaigns) =>
    let outcomes := Sweep.byName (← sweep.runEach world campaigns)
    let printed := String.join (outcomes.map fun (name, o) => outcomeText dry name o)
    match (outcomes.filter (·.2.fault.isSome)).length with
    | 0 => return { stdout := printed }
    | failed => return Failure.console printed { context := s!"{failed} codemod(s) failed" }

/-- Takes one stage over a directory. -/
def applyStage (here : Surroundings σ) (path : Path) (language : String) (rule : Rule)
    (replace : String) (dry : Bool) : StateM (Session σ) Console := do
  if (Language.lookup? language).isNone then
    return Failure.console ""
      { context := s!"Unsupported language '{language}'; run `codemod languages` for the list" }
  let stage : Stage := { rule, transformer := .literal replace }
  let codemod := Codemod.ofStages here.engine "apply" [language] [stage]
  let s ← get
  match during "Codemod failed" (codemod.run path { dry } s.disk) with
  | .error failure => return failure.console ""
  | .ok (report, disk) =>
    set { s with disk, events := s.events ++ report.events }
    let done := Codemod.successes report.results
    let stderr := String.join ((Codemod.failures report.results).map fun f => s!"error: {f.message}\n")
    if dry then
      let summary := (Diff.Summary.ofResults done).text
      return { stdout := Diff.ofResults true done ++ s!"\n\n{summary}\n", stderr }
    else
      let changed := (done.filter (·.changed)).length
      return { stdout := s!"Modified {changed} file(s)\n", stderr }

/-- A line on a language. -/
def languageLine (l : Language) : String :=
  let aliases :=
    if l.aliases.isEmpty then "" else " (aliases: " ++ ", ".intercalate l.aliases ++ ")"
  s!"  {l.name}{aliases} (extensions: " ++ ", ".intercalate l.extensions ++ ")\n"

/-- The list of languages. -/
def languageList : String := "Supported languages:\n" ++ String.join (Language.all.map languageLine)

/-- Does what is asked for. -/
def perform (here : Surroundings σ) : Request → StateM (Session σ) Console
  | .run config dry workspace => runConfig here config dry workspace
  | .apply path language rule replace dry => applyStage here path language rule replace dry
  | .languages => pure { stdout := languageList }

/-- Reads the arguments and does what they ask for. -/
def execute (here : Surroundings σ) (args : List String) : StateM (Session σ) Console :=
  match readRequest args with
  | .ok request => perform here request
  | .error stop => pure stop.console

end CodeSweep.CommandLine
