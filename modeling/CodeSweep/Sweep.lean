import CodeSweep.Publish

/-!
# Sweeps

A sweep takes codemods over a set of repositories, one codemod after the other. Each codemod works in
a directory of its own: its repositories are cloned into it and prepared, their files transformed, and
what changed is published.
-/

namespace CodeSweep

/-- Where and over what to sweep. -/
structure Sweep where
  workspace : Path
  repositories : List RepositorySpec
  dry : Bool := false
deriving DecidableEq, Inhabited

/-- What a codemod came to. -/
structure SweepOutcome where
  results : List FileResult := []
  publications : List Publication := []
  handed : List Handed := []
  /-- Why the codemod could not run at all. -/
  fault : Option Fault := none
deriving Inhabited

namespace Sweep

variable {σ : Type}

/-- The repositories that a codemod is for. -/
def selected (sweep : Sweep) (c : Campaign) : List RepositorySpec :=
  sweep.repositories.filter c.appliesTo

/-- The directory a codemod works in. -/
def workDir (sweep : Sweep) (c : Campaign) : Path := sweep.workspace.child c.codemod.name

/-- Only files of prepared repositories are targets. -/
def isPrepared (prepared : List Checkout) (path : Path) : Bool :=
  path.components.head?.any fun c => prepared.any (·.repository.name == c.text)

/-- How the codemod is run over prepared repositories. -/
def options (sweep : Sweep) (prepared : List Checkout) : RunOptions :=
  { hooks := { accepts? := some (isPrepared prepared) }
    dry := sweep.dry
    rootPaths := prepared.map (·.repository.path) }

/-- Transforms the files of prepared repositories, and publishes what changed unless the sweep is
dry. -/
def transform (w : World σ) (sweep : Sweep) (c : Campaign) (prepared : List Checkout) :
    StateM (Session σ) (Except Fault SweepOutcome) := do
  let s ← get
  match c.codemod.run (sweep.workDir c) (sweep.options prepared) s.disk with
  | .error fault => return .error fault
  | .ok (report, disk) =>
    set { s with disk, events := s.events ++ report.events }
    let publications ←
      if sweep.dry then pure []
      else do
        let (publications, _) ← c.publish w report.results prepared
        pure publications
    Session.tell (.complete c.codemod.name)
    return .ok { results := report.results, publications, handed := report.handed }

/-- Clones the repositories that a codemod is for and prepares them. -/
def gather (w : World σ) (sweep : Sweep) (c : Campaign) :
    StateM (Session σ) (Except Fault (List Checkout)) := do
  let chosen := sweep.selected c
  Session.tell (.preparing c.codemod.name chosen.length)
  match ← Checkout.cloneAll w chosen (sweep.workDir c) with
  | .error fault => return .error fault
  | .ok cloned => return .ok (← Checkout.prepareAll w cloned c.branch)

/-- Sweeps with one codemod. -/
def runOne (w : World σ) (sweep : Sweep) (c : Campaign) :
    StateM (Session σ) (Except Fault SweepOutcome) := do
  match ← sweep.gather w c with
  | .error fault => return .error fault
  | .ok prepared => sweep.transform w c prepared

/-- Sweeps with one codemod; one that cannot run is told of and has that as its outcome. -/
def outcomeOf (w : World σ) (sweep : Sweep) (c : Campaign) : StateM (Session σ) SweepOutcome := do
  match ← sweep.runOne w c with
  | .ok outcome => return outcome
  | .error fault =>
    Session.tell (.codemodFailed c.codemod.name fault)
    return { fault := some fault }

/-- Sweeps with codemods one after the other, and gives the outcome of each. -/
def runEach (w : World σ) (sweep : Sweep) :
    List Campaign → StateM (Session σ) (List (String × SweepOutcome))
  | [] => pure []
  | c :: rest => do
    let outcome ← sweep.outcomeOf w c
    let later ← sweep.runEach w rest
    return (c.codemod.name, outcome) :: later

/-- Outcomes by name, in order; of two with one name the later stays. -/
def byName (outcomes : List (String × SweepOutcome)) : List (String × SweepOutcome) :=
  Ordered.ofList Ordered.byKey outcomes

end Sweep

end CodeSweep
