import CodeSweep.Fault

/-!
# Events

What a run tells while it goes on: progress and failures that a caller may want to record, and
notes on single steps that only show in a trace.
-/

namespace CodeSweep

/-- Something a run tells. -/
inductive Event where
  | targetsFound (codemod : String) (count : Nat)
  | fileTransformed (codemod : String) (path : Path) (written : Bool)
  | fileFailed (codemod : String) (path : Path) (fault : Fault)
  | codemodFinished (codemod : String)
  | codemodFailed (codemod : String) (fault : Fault)
  | nothingTransformed (codemod : String)
  | repositoryFailed (fault : GitFault)
  | commitFailed (fault : GitFault)
  | pushFailed (fault : GitFault)
  | pullRequestCreated (address url : String)
  | pullRequestAlreadyOpen (address : String)
  | alreadyCloned (address : String)
  | rebaseFailed (address base reason : String)
  | recreatingBranch (address branch base : String) (rebased pushed : Bool)
  | preparing (codemod : String) (repositories : Nat)
  | complete (codemod : String)
deriving Inhabited

/-- How important a line of a trace is. -/
inductive Level where
  | debug
  | info
  | warn
  | error
deriving DecidableEq, Inhabited

/-- The name of a level. -/
def Level.text : Level → String
  | .debug => "DEBUG"
  | .info => "INFO"
  | .warn => "WARN"
  | .error => "ERROR"

/-- A line of a trace: a message with named values. Durations are not told. -/
structure TraceLine where
  level : Level
  message : String
  fields : List (String × String) := []
deriving DecidableEq, Inhabited

namespace Event

/-- Whether an event is a note on a single step, of interest in a trace only. -/
def isNote : Event → Bool
  | .alreadyCloned _ | .rebaseFailed .. | .recreatingBranch .. | .preparing .. | .complete _ => true
  | _ => false

/-- The event as a line of a trace. -/
def trace : Event → TraceLine
  | .targetsFound codemod count =>
    let noun := if count = 1 then "file" else "files"
    ⟨.info, s!"targeting {count} {noun} to transform",
      [("codemod", codemod), ("count", toString count)]⟩
  | .fileTransformed codemod path written =>
    ⟨.info, "transformed file",
      [("codemod", codemod), ("path", path.text), ("written", toString written)]⟩
  | .fileFailed codemod path fault =>
    ⟨.error, "failed to transform file",
      [("codemod", codemod), ("path", path.text), ("error", fault.message)]⟩
  | .codemodFinished codemod => ⟨.info, "finished codemod in Nms", [("codemod", codemod)]⟩
  | .codemodFailed codemod fault =>
    ⟨.error, "codemod failed", [("codemod", codemod), ("error", fault.message)]⟩
  | .nothingTransformed codemod => ⟨.info, "nothing transformed", [("codemod", codemod)]⟩
  | .repositoryFailed fault =>
    ⟨.error, "skipping repository", [("repository", fault.address), ("error", fault.message)]⟩
  | .commitFailed fault =>
    ⟨.error, "failed to commit changes", [("repository", fault.address), ("error", fault.message)]⟩
  | .pushFailed fault =>
    ⟨.error, "failed to push changes", [("repository", fault.address), ("error", fault.message)]⟩
  | .pullRequestCreated address url =>
    ⟨.info, "pull request created", [("repository", address), ("url", url)]⟩
  | .pullRequestAlreadyOpen address =>
    ⟨.warn, "transformation already pushed, pull request not created", [("repository", address)]⟩
  | .alreadyCloned address => ⟨.debug, "already cloned", [("repository", address)]⟩
  | .rebaseFailed address base reason =>
    ⟨.debug, s!"rebase onto {base} failed: {reason}", [("repository", address)]⟩
  | .recreatingBranch address branch base rebased pushed =>
    ⟨.debug, s!"recreating working branch from {base}",
      [("repository", address), ("branch", branch), ("rebased", toString rebased),
        ("exists_in_remote", toString pushed)]⟩
  | .preparing codemod repositories =>
    ⟨.info, "preparing repositories", [("codemod", codemod), ("repositories", toString repositories)]⟩
  | .complete codemod => ⟨.info, "codemod run complete", [("codemod", codemod)]⟩

end Event

end CodeSweep
