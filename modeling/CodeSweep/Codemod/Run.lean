import CodeSweep.Codemod
import CodeSweep.Event
import CodeSweep.Workspace.Walk

/-!
# Running a codemod over a directory

The files below a directory that the caller, the codemod and its extensions agree on are read,
transformed and, unless the run is dry, written back one by one. A file that cannot be read,
transformed or written is a failed result and does not concern the others; so is a directory that
cannot be listed.

What a caller adds, and what transforms the text, are functions: they answer and do nothing else, so
that no file changes but by the run.
-/

namespace CodeSweep

/-- A file that went through: `old` is what it held, `content` what it holds now, or would hold after
a dry run. -/
structure FileDone where
  path : Path
  /-- The repository directory that owns the file. -/
  root : Path
  old : String
  content : String
  changed : Bool
deriving DecidableEq, Inhabited

/-- A file or directory that did not go through. -/
structure FileFailed where
  path : Path
  root : Path
  fault : Fault
deriving Inhabited

/-- The failure in words. -/
def FileFailed.message (f : FileFailed) : String := s!"{f.path.text}: {f.fault.message}"

/-- What became of one file. -/
abbrev FileResult := Except FileFailed FileDone

/-- What a caller adds to a run. -/
structure Hooks where
  /-- Which paths are targets. -/
  accepts? : Option (Path → Bool) := none
  /-- Runs before targets are selected, and may refuse. -/
  before? : Option (Codemod → Except Fault Unit) := none
  /-- Polishes changed text before it is written. -/
  polish? : Option (String → Except Fault String) := none

namespace Hooks

/-- Whether the caller wants a path. -/
def accepts (h : Hooks) (path : Path) : Bool := h.accepts?.all (· path)

/-- Asks whether the codemod may run. -/
def before (h : Hooks) (c : Codemod) : Except Fault Unit :=
  match h.before? with
  | none => .ok ()
  | some ask => (ask c).mapError fun fault => .hook "pre_codemod_run" fault.message

/-- Polishes changed text. -/
def polish (h : Hooks) (text : String) : Except Fault String :=
  match h.polish? with
  | none => .ok text
  | some f => f text

end Hooks

/-- How to run. -/
structure RunOptions where
  hooks : Hooks := {}
  /-- Whether events are told. -/
  log : Bool := true
  /-- Whether everything is computed and nothing written. -/
  dry : Bool := false
  /-- Repository roots that the codemod is told of even without results. -/
  rootPaths : List Path := []

/-- The finished files of one repository, as the codemod is told of them. -/
structure Handed where
  codemod : String
  root : Path
  files : List FileDone
deriving Inhabited

/-- What a run gives. -/
structure RunReport where
  results : List FileResult := []
  events : List Event := []
  handed : List Handed := []
deriving Inhabited

namespace Codemod

/-- The path of names below a directory. -/
def below (root : Path) (names : List String) : Path := root.join ⟨"/".intercalate names⟩

/-- The directory right below `root` on the way to the file. -/
def rootOf (root : Path) (names : List String) : Path := root.child (names.head?.getD "")

/-- Reads, transforms and, unless dry, writes one file: its text, and its new text if that differs. -/
def transformFile (c : Codemod) (o : RunOptions) (d : Disk) (loc : Location) (path : Path) :
    Except Fault (String × Option String) × Disk :=
  match d.readAt loc with
  | .error cause => (.error (.io cause), d)
  | .ok old =>
    match c.transform old path with
    | .error fault => (.error fault, d)
    | .ok new =>
      if new = old then (.ok (old, none), d)
      else
        match o.hooks.polish new with
        | .error fault => (.error fault, d)
        | .ok content =>
          if o.dry then (.ok (old, some content), d)
          else
            match d.writeAt loc content with
            | .error cause => (.error (.io cause), d)
            | .ok written => (.ok (old, some content), written)

/-- What becomes of one target. -/
def process (c : Codemod) (o : RunOptions) (root : Path) (base : Location) (d : Disk)
    (names : List String) : FileResult × Disk :=
  let path := below root names
  let owner := rootOf root names
  match c.transformFile o d (base ++ names) path with
  | (.ok (old, none), d) =>
    (.ok { path, root := owner, old, content := old, changed := false }, d)
  | (.ok (old, some content), d) =>
    (.ok { path, root := owner, old, content, changed := true }, d)
  | (.error fault, d) => (.error { path, root := owner, fault }, d)

/-- What becomes of the targets, one after the other. -/
def processAll (c : Codemod) (o : RunOptions) (root : Path) (base : Location) :
    Disk → List (List String) → List FileResult × Disk
  | d, [] => ([], d)
  | d, names :: rest =>
    let (result, d) := c.process o root base d names
    let (results, d) := processAll c o root base d rest
    (result :: results, d)

/-- What is told of a result: a failure, or a change. -/
def eventOf (c : Codemod) (o : RunOptions) : FileResult → Option Event
  | .error failed => some (.fileFailed c.name failed.path failed.fault)
  | .ok done =>
    if done.changed then some (.fileTransformed c.name done.path (!o.dry)) else none

/-- The results of files that went through. -/
def successes (results : List FileResult) : List FileDone := results.filterMap (·.toOption)

/-- The results of files that did not. -/
def failures (results : List FileResult) : List FileFailed :=
  results.filterMap fun
    | .error failed => some failed
    | .ok _ => none

/-- The finished files by repository root: for each root the caller names or that has results. Roots
are told apart by their components; of two spellings the one of the results stands. -/
def handOver (c : Codemod) (o : RunOptions) (results : List FileResult) : List Handed :=
  let done := successes results
  let roots := Ordered.ofList Path.compare (o.rootPaths ++ done.map (·.root))
  roots.map fun root => { codemod := c.name, root, files := done.filter (·.root.same root) }

/-- The walk's failures as results. -/
def walkFailures (root : Path) (walked : Walked) : List FileResult :=
  walked.failed.map fun names =>
    let path := below root names
    .error { path, root := rootOf root names, fault := .walk path .permissionDenied }

/-- The walked files that the caller, the codemod and its extensions agree on. -/
def targets (c : Codemod) (o : RunOptions) (walked : Walked) : List (List String) :=
  walked.files.filter fun names =>
    let path : Path := below ⟨""⟩ names
    o.hooks.accepts path && c.accepts path && path.isAmong c.extensions

/-- Runs the codemod over the files below `root`. Without targets nothing but the walk's failures is
told. -/
def run (c : Codemod) (root : Path) (o : RunOptions) (d : Disk) : Except Fault (RunReport × Disk) :=
  match o.hooks.before c with
  | .error fault => .error fault
  | .ok () =>
    match d.walk root with
    | .error fault => .error fault
    | .ok (base, walked) =>
      let failed := walkFailures root walked
      let told (events : List Event) : List Event := if o.log then events else []
      match c.targets o walked with
      | [] => .ok ({ results := failed, events := told (failed.filterMap (c.eventOf o)) }, d)
      | first :: more =>
        let (results, d) := c.processAll o root base d (first :: more)
        let all := failed ++ results
        .ok ({ results := all
               events := told (failed.filterMap (c.eventOf o) ++
                 [.targetsFound c.name (first :: more).length] ++
                 results.filterMap (c.eventOf o) ++ [.codemodFinished c.name])
               handed := if c.watched then c.handOver o all else [] }, d)

/-- What several codemods, run one after the other, give. -/
structure Series where
  /-- Results by codemod name. -/
  results : List (String × List FileResult) := []
  events : List Event := []
  handed : List Handed := []
  /-- Why the series stopped, if it did. -/
  fault : Option Fault := none
deriving Inhabited

/-- Runs codemods one after the other, each on what the one before it left; the first that cannot run
ends the series. -/
def runAll (root : Path) (o : RunOptions) (sofar : Series) (d : Disk) : List Codemod → Series × Disk
  | [] => (sofar, d)
  | c :: rest =>
    match c.run root o d with
    | .error fault => ({ sofar with fault := some fault }, d)
    | .ok (report, d) =>
      runAll root o
        { sofar with
          results := Ordered.bind c.name report.results sofar.results
          events := sofar.events ++ report.events
          handed := sofar.handed ++ report.handed } d rest

end Codemod

end CodeSweep
