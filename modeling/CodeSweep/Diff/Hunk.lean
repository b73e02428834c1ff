import CodeSweep.Diff.Compact
import CodeSweep.Diff.Script

/-!
# Hunks

For reading, deletions and insertions that touch are gathered into changes between equal runs, and
equal runs are cut down to a few lines of context. A long equal run ends one hunk and starts the
next.
-/

namespace CodeSweep.Diff

/-- A run of equal lines, or a change: lines taken away and lines put in their place. -/
inductive Piece where
  | same (lines : List String)
  | change (deleted inserted : List String)
deriving DecidableEq, Inhabited

/-- The lines a piece takes away. -/
def Piece.deleted : Piece → List String
  | .same _ => []
  | .change ds _ => ds

/-- The lines a piece puts in. -/
def Piece.inserted : Piece → List String
  | .same _ => []
  | .change _ is => is

/-- Puts a block in front of the pieces that follow it, joining it with its neighbour. -/
def Piece.push (b : Block) (ps : List Piece) : List Piece :=
  match b, ps with
  | .equal ls, .same ms :: ps => .same (ls ++ ms) :: ps
  | .equal ls, ps => .same ls :: ps
  | .delete ls, .change ds is :: ps => .change (ls ++ ds) is :: ps
  | .delete ls, ps => .change ls [] :: ps
  | .insert ls, .change ds is :: ps => .change ds (ls ++ is) :: ps
  | .insert ls, ps => .change [] ls :: ps

/-- Gathers blocks into equal runs and changes. -/
def gather (bs : List Block) : List Piece := bs.foldr Piece.push []

/-- The pieces of the comparison of two texts. -/
def pieces (old new : String) : List Piece :=
  gather (compact (script (lines old) (lines new)))

/-- The number of equal lines shown around a change. -/
def context : Nat := 3

/-- Cuts an equal run at the front to its last lines. -/
def trimFront : List Piece → List Piece
  | .same ls :: ps => .same (ls.drop (ls.length - context)) :: ps
  | ps => ps

/-- Cuts an equal run at the back to its first lines. -/
def trimBack (ps : List Piece) : List Piece :=
  match ps.reverse with
  | .same ls :: before => (Piece.same (ls.take context) :: before).reverse
  | _ => ps

/-- Whether a hunk shows no change. -/
def isQuiet : List Piece → Bool
  | [] => true
  | [.same _] => true
  | _ => false

/-- Splits pieces at long equal runs; `started` is the hunk so far, last piece first. -/
def splitHunks (started : List Piece) : List Piece → List (List Piece)
  | [] => if isQuiet started then [] else [started.reverse]
  | .same ls :: ps =>
    if ls.length > 2 * context then
      (Piece.same (ls.take context) :: started).reverse ::
        splitHunks [.same (ls.drop (ls.length - context))] ps
    else splitHunks (.same ls :: started) ps
  | .change ds is :: ps => splitHunks (.change ds is :: started) ps

/-- The hunks of a comparison. -/
def hunks (ps : List Piece) : List (List Piece) := splitHunks [] (trimBack (trimFront ps))

end CodeSweep.Diff
