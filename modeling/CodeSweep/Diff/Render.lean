import CodeSweep.Diff.Hunk
import CodeSweep.Path

/-!
# Diffs as text

A diff names its file on two header lines and then shows its hunks, with a blank line between two.
Colours are put around the header lines and around deleted and inserted lines, and nothing else
depends on them.
-/

namespace CodeSweep.Diff

/-- What a line is in a diff. -/
inductive Mark where
  | header
  | deleted
  | inserted
  | kept
deriving DecidableEq, Inhabited

/-- One line of a diff: its mark, its text (with the ending it has) and whether an ending has to be
added after it. -/
structure DiffLine where
  mark : Mark
  text : String
  unended : Bool := false
deriving DecidableEq, Inhabited

/-- The colour code in front of a marked line. -/
def Mark.colour : Mark → String
  | .header => "\x1b[36m"
  | .deleted => "\x1b[31m"
  | .inserted => "\x1b[32m"
  | .kept => ""

/-- The sign in front of a marked line. -/
def Mark.sign : Mark → String
  | .header => ""
  | .deleted => "-"
  | .inserted => "+"
  | .kept => " "

/-- The code that ends a colour. -/
def resetColour : String := "\x1b[0m"

/-- A line as it is shown; header lines end after their colour. -/
def DiffLine.render (color : Bool) (l : DiffLine) : String :=
  let shown := l.mark.sign ++ l.text
  let painted :=
    if color && l.mark != .kept then l.mark.colour ++ shown ++ resetColour else shown
  if l.unended then painted ++ "\n" else painted

/-- The lines a piece shows. -/
def Piece.shown : Piece → List DiffLine
  | .same ls => ls.map fun l => ⟨.kept, l, isOpenLine l⟩
  | .change ds is =>
    ds.map (fun l => ⟨.deleted, l, isOpenLine l⟩) ++ is.map fun l => ⟨.inserted, l, isOpenLine l⟩

/-- The two lines that name the file. -/
def headers (path : Path) : List DiffLine :=
  [⟨.header, "--- a/" ++ path.text, true⟩, ⟨.header, "+++ b/" ++ path.text, true⟩]

/-- Lines one after the other. -/
def renderLines (color : Bool) (ls : List DiffLine) : String :=
  String.join (ls.map (DiffLine.render color))

/-- The diff of two texts of the file at `path`. -/
def render (color : Bool) (old new : String) (path : Path) : String :=
  let shown := (hunks (pieces old new)).map fun h => renderLines color (h.flatMap Piece.shown)
  renderLines color (headers path) ++ "\n".intercalate shown

/-- How much changed. -/
structure Summary where
  files : Nat := 0
  insertions : Nat := 0
  deletions : Nat := 0
deriving DecidableEq, Inhabited

namespace Summary

/-- What changed between two texts. -/
def ofTexts (old new : String) : Summary :=
  let ps := pieces old new
  let insertions := (ps.flatMap Piece.inserted).length
  let deletions := (ps.flatMap Piece.deleted).length
  { files := if insertions > 0 ∨ deletions > 0 then 1 else 0, insertions, deletions }

/-- Both together. -/
def add (a b : Summary) : Summary :=
  { files := a.files + b.files
    insertions := a.insertions + b.insertions
    deletions := a.deletions + b.deletions }

/-- The summary in words. -/
def text (s : Summary) : String :=
  s!"{s.files} file(s) changed, {s.insertions} insertions(+), {s.deletions} deletions(-)"

end Summary

end CodeSweep.Diff
