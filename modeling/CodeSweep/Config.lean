import CodeSweep.Data.Decode
import CodeSweep.Data.Yaml
import CodeSweep.Glob
import CodeSweep.Sweep

/-!
# Run configurations

A configuration lists the repositories to work on and the declarative codemods to run over them. It is
checked before anything runs: names are given, and given once, languages are known, and every query
compiles under one of its codemod's languages.
-/

namespace CodeSweep

/-- A stage of find and replace, as configured. -/
structure StageSpec where
  query : String
  capture : Option String := none
  pattern : Option String := none
  replace : String
deriving DecidableEq, Inhabited

/-- A declarative codemod, as configured. -/
structure CodemodSpec where
  name : String
  languages : List String := []
  tags : List String := []
  branch : Option String := none
  message : Option String := none
  included : List String := []
  excluded : List String := []
  stages : List StageSpec
deriving DecidableEq, Inhabited

/-- Where pull requests are opened. -/
inductive HostingKind where
  | gh
  | githubApi
deriving DecidableEq, Inhabited

/-- The configured name of a kind of hosting. -/
def HostingKind.name : HostingKind → String
  | .gh => "gh"
  | .githubApi => "github-api"

/-- A whole configuration. -/
structure Config where
  workspace : Option Path := none
  hosting : HostingKind := .gh
  repositories : List RepositorySpec := []
  codemods : List CodemodSpec
deriving DecidableEq, Inhabited

/-! ### Reading -/

open Data in
/-- Optional text in a field that may be missing. -/
def Data.optionalText (fields : Fields) (name : String) : Decode (Option String) :=
  defaulted none (optional text) fields name

open Data in
/-- A list of texts in a field that may be missing. -/
def Data.texts (fields : Fields) (name : String) : Decode (List String) :=
  defaulted [] (listOf text) fields name

open Data in
/-- Reads a rule. -/
def Rule.decode (d : Data) : Decode Rule := do
  let given ← d.fields ["query", "capture", "pattern"]
  return {
    query := ← required text given "query"
    capture := ← optionalText given "capture"
    pattern := ← optionalText given "pattern" }

open Data in
/-- Reads a stage. -/
def StageSpec.decode (d : Data) : Decode StageSpec := do
  let given ← d.fields ["query", "capture", "pattern", "replace"]
  return {
    query := ← required text given "query"
    capture := ← optionalText given "capture"
    pattern := ← optionalText given "pattern"
    replace := ← required text given "replace" }

open Data in
/-- Reads a codemod. -/
def CodemodSpec.decode (d : Data) : Decode CodemodSpec := do
  let given ← d.fields
    ["name", "languages", "tags", "branch", "commit_message", "include", "exclude", "stages"]
  return {
    name := ← required text given "name"
    languages := ← texts given "languages"
    tags := ← texts given "tags"
    branch := ← optionalText given "branch"
    message := ← optionalText given "commit_message"
    included := ← texts given "include"
    excluded := ← texts given "exclude"
    stages := ← required (listOf StageSpec.decode) given "stages" }

open Data in
/-- Reads a repository. -/
def RepositorySpec.decode (d : Data) : Decode RepositorySpec := do
  let given ← d.fields ["address", "tags"]
  return {
    address := ← required text given "address"
    tags := Ordered.names (← texts given "tags") }

/-- Reads a kind of hosting. -/
def HostingKind.decode (d : Data) : Decode HostingKind := do
  let name ← d.name
  match [HostingKind.gh, .githubApi].find? (·.name == name) with
  | some kind => return kind
  | none => failure

open Data in
/-- Reads a configuration. -/
def Config.decode (d : Data) : Decode Config := do
  let given ← d.fields ["workspace", "hosting", "repositories", "codemods"]
  return {
    workspace := (← optionalText given "workspace").map Path.mk
    hosting := ← defaulted .gh HostingKind.decode given "hosting"
    repositories := ← defaulted [] (listOf RepositorySpec.decode) given "repositories"
    codemods := ← required (listOf CodemodSpec.decode) given "codemods" }

/-! ### Checking -/

namespace CodemodSpec

/-- The first declared language that is not known. -/
def unknownLanguage? (c : CodemodSpec) : Option String :=
  c.languages.find? fun name => (Language.lookup? name).isNone

/-- Whether a query compiles under one of the declared languages, if any are declared. -/
def compiles (engine : Engine) (c : CodemodSpec) (query : String) : Bool :=
  let declared := c.languages.filterMap Language.lookup?
  declared.isEmpty || declared.any fun l => (engine.compile l query).toBool

/-- The first fault of the codemod, in the order name, stages, languages, queries. -/
def check (engine : Engine) (c : CodemodSpec) : Except Fault Unit :=
  if (Text.trim c.name).isEmpty then .error (.config .blankName)
  else if c.stages.isEmpty then .error (.config (.noStages c.name))
  else
    match c.unknownLanguage? with
    | some language => .error (.config (.unknownLanguage c.name language))
    | none =>
      match c.stages.findIdx? fun stage => !c.compiles engine stage.query with
      | some index => .error (.config (.uncompiledQuery c.name (index + 1) c.languages))
      | none => .ok ()

/-- The stage as it is run. -/
def stageOf (s : StageSpec) : Stage :=
  { rule := Rule.make s.query s.capture s.pattern, transformer := .literal s.replace }

/-- The codemod as it is run. -/
def toCampaign (engine : Engine) (c : CodemodSpec) : Except Fault Campaign := do
  c.check engine
  let codemod := Codemod.ofStages engine c.name c.languages (c.stages.map stageOf)
  let accepts? : Option (Path → Bool) ←
    if c.included.isEmpty && c.excluded.isEmpty then pure none
    else do
      let filter ← TargetFilter.ofGlobs c.included c.excluded
      pure (some filter.accepts)
  let campaign := Campaign.ofCodemod { codemod with accepts? }
  return { campaign with
    tags := Ordered.names c.tags
    branch := c.branch.getD campaign.branch
    message := c.message.getD campaign.message }

end CodemodSpec

namespace Config

/-- The first fault of the codemods in order; `taken` are the names seen before. -/
def checkFrom (engine : Engine) (taken : List String) : List CodemodSpec → Except Fault Unit
  | [] => .ok ()
  | c :: rest =>
    if taken.contains c.name then .error (.config (.duplicateName c.name))
    else
      match c.check engine with
      | .error fault => .error fault
      | .ok () => checkFrom engine (c.name :: taken) rest

/-- The first fault of the configuration. -/
def check (engine : Engine) (c : Config) : Except Fault Unit := checkFrom engine [] c.codemods

/-- A configuration that was checked. -/
def checked (engine : Engine) (c : Config) : Except Fault Config := (c.check engine).map fun _ => c

/-- Reads a configuration from its text. -/
def ofText (engine : Engine) (text : String) : Except Fault Config :=
  match (Data.Yaml.read? text).bind (·.decode? decode) with
  | some c => c.checked engine
  | none => .error (.config .notYaml)

/-- Reads a configuration from a file. -/
def load (engine : Engine) (d : Disk) (path : Path) : Except Fault Config :=
  match d.read path with
  | .ok text => ofText engine text
  | .error cause => .error (.io (.unreadableConfig path cause))

/-- All codemods as they are run, in order. -/
def campaigns (engine : Engine) (c : Config) : Except Fault (List Campaign) :=
  c.codemods.mapM (·.toCampaign engine)

/-- The configured directory to work in, else one in the directory for temporary files. -/
def workspaceIn (c : Config) (temporary : Path) : Path :=
  c.workspace.getD (temporary.child "codemods")

/-- The configured hosting, given the service to use with a token if there is one. -/
def hostingWith {σ : Type} (c : Config) (service? : Option (Hosting σ)) : Except Fault (Hosting σ) :=
  match c.hosting, service? with
  | .gh, _ => .ok .gh
  | .githubApi, some service => .ok service
  | .githubApi, none => .error Hosting.noToken

end Config

end CodeSweep
