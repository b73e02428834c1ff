import CodeSweep.Event
import CodeSweep.Text.Blank
import CodeSweep.Workspace.Disk

/-!
# Sessions

Version control and the hosting platform are outside this library. What it asks of them, and what
they may answer, is a `World`: an arbitrary state with functions that answer requests and change the
state, and the disk, as they like. A session is the disk, that state, and the record of all that was
asked, answered and told.
-/

namespace CodeSweep

/-- What a finished program printed, and whether it succeeded. -/
structure Output where
  stdout : String := ""
  stderr : String := ""
  success : Bool := true
deriving DecidableEq, Inhabited

/-- The most telling text of an output: what went to the error stream, else what went to the other. -/
def Output.message (o : Output) : String :=
  let err := Text.trim o.stderr
  if err.isEmpty then Text.trim o.stdout else err

/-- A program to run in a directory. -/
structure Command where
  cwd : Path
  program : String
  args : List String
deriving DecidableEq, Inhabited

/-- A program's output, or why it could not be started. -/
abbrev Reply := Except IoFault Output

/-- A pull request to open for a pushed branch. -/
structure PullRequest where
  title : String
  head : String
  body : Option String := none
deriving DecidableEq, Inhabited

/-- One question and its answer. -/
inductive Exchange where
  | command (command : Command) (reply : Reply)
  | defaultBranch (address : String) (answer : Except Fault String)
  | pullRequest (address : String) (request : PullRequest) (answer : Except Fault String)
deriving Inhabited

/-- The platform that knows default branches and opens pull requests: through the `gh` program, or
a service of its own. -/
inductive Hosting (σ : Type) where
  | gh
  | service (defaultBranch : String → σ → Except Fault String × σ)
      (openRequest : String → PullRequest → σ → Except Fault String × σ)

/-- All that answers from outside. -/
structure World (σ : Type) where
  run : Command → Disk × σ → Reply × Disk × σ
  hosting : Hosting σ

/-- The state of affairs, and all that happened. -/
structure Session (σ : Type) where
  disk : Disk
  outside : σ
  transcript : List Exchange := []
  events : List Event := []

namespace Session

variable {σ : Type}

/-- Tells an event. -/
def tell (event : Event) : StateM (Session σ) Unit :=
  modify fun s => { s with events := s.events ++ [event] }

/-- Notes a question and its answer. -/
def note (exchange : Exchange) : StateM (Session σ) Unit :=
  modify fun s => { s with transcript := s.transcript ++ [exchange] }

/-- Makes the directory at a path, with the directories on the way to it. -/
def makeDirs (p : Path) : StateM (Session σ) (Except IoFault Unit) := fun s =>
  let made := s.disk.makeDirs p
  (made.1, { s with disk := made.2 })

end Session

/-- Runs a command and notes the reply. -/
def World.call {σ : Type} (w : World σ) (command : Command) : StateM (Session σ) Reply := fun s =>
  let (reply, disk, outside) := w.run command (s.disk, s.outside)
  (reply, { s with disk, outside, transcript := s.transcript ++ [.command command reply] })

end CodeSweep
