import CodeSweep.Codemod.Run
import CodeSweep.Diff.Render

/-!
# Diffs of results

A dry run shows what it would change: the diff of every changed file, and one summary of them all.
-/

namespace CodeSweep.Diff

/-- The diffs of all changed files in order, with an empty line between two. -/
def ofResults (color : Bool) (done : List FileDone) : String :=
  "\n".intercalate ((done.filter (·.changed)).map fun r => render color r.old r.content r.path)

/-- What all changed files together changed. -/
def Summary.ofResults (done : List FileDone) : Summary :=
  (done.filter (·.changed)).foldl (fun s r => s.add (ofTexts r.old r.content)) {}

end CodeSweep.Diff
