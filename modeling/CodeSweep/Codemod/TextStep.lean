import CodeSweep.Codemod

/-!
# Text steps

The plainest codemods need no syntax tree: they take a text through a list of small steps.
-/

namespace CodeSweep

/-- One step on a text. -/
inductive TextStep where
  | replace (old new : String)
  | append (text : String)
  | set (text : String)
  /-- Appends the path of the file. -/
  | appendPath
  /-- Gives up when the text holds `needle`. -/
  | failIf (needle reason : String)
deriving DecidableEq, Inhabited

namespace TextStep

/-- Runs one step on the text of the file at `path`. -/
def run (path : Path) (text : String) : TextStep → Except Fault String
  | .replace old new => .ok (Text.replaceAll text old new)
  | .append more => .ok (text ++ more)
  | .set new => .ok new
  | .appendPath => .ok (text ++ path.text)
  | .failIf needle reason =>
    if Text.holds text needle then .error (.transform path reason) else .ok text

/-- Runs steps in order. -/
def runAll (path : Path) (text : String) : List TextStep → Except Fault String
  | [] => .ok text
  | step :: rest =>
    match run path text step with
    | .ok text => runAll path text rest
    | .error fault => .error fault

end TextStep

/-- The codemod that takes each file through the steps. -/
def Codemod.ofSteps (name : String) (languages : List String) (steps : List TextStep) : Codemod :=
  { name, languages := Ordered.names languages
    transform := fun text path => TextStep.runAll path text steps }

end CodeSweep
