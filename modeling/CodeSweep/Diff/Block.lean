/-!
# Blocks of lines

A comparison of two texts is a list of blocks: lines both sides have, lines only the old side has
and lines only the new side has. Read in order, a block list spells out both sides.
-/

namespace CodeSweep.Diff

/-- The lines of a text with their endings. A line ends after a line feed, after a carriage return
or after both in that order; what follows the last ending is a line too. -/
def lineChars : List Char → List (List Char)
  | [] => []
  | '\r' :: '\n' :: cs => ['\r', '\n'] :: lineChars cs
  | c :: cs =>
    if c = '\n' ∨ c = '\r' then [c] :: lineChars cs
    else
      match lineChars cs with
      | [] => [[c]]
      | line :: rest => (c :: line) :: rest

/-- The lines of a text with their endings. -/
def lines (s : String) : List String := (lineChars s.toList).map String.ofList

/-- Whether a line has no ending. -/
def isOpenLine (line : String) : Bool :=
  match line.toList.getLast? with
  | some c => c != '\n' && c != '\r'
  | none => true

/-- A run of lines that stand on both sides or on one. -/
inductive Block where
  | equal (lines : List String)
  | delete (lines : List String)
  | insert (lines : List String)
deriving DecidableEq, Inhabited

namespace Block

/-- The block's lines. -/
def lines : Block → List String
  | .equal ls => ls
  | .delete ls => ls
  | .insert ls => ls

/-- What the block contributes to the old side. -/
def oldLines : Block → List String
  | .insert _ => []
  | b => b.lines

/-- What the block contributes to the new side. -/
def newLines : Block → List String
  | .delete _ => []
  | b => b.lines

end Block

/-- The old side of a block list. -/
def oldSide (bs : List Block) : List String := bs.flatMap Block.oldLines

/-- The new side of a block list. -/
def newSide (bs : List Block) : List String := bs.flatMap Block.newLines

/-- The number of lines that two lists have in common at their start. -/
def commonStart : List String → List String → Nat
  | a :: as, b :: bs => if a = b then commonStart as bs + 1 else 0
  | _, _ => 0

/-- The number of lines that two lists have in common at their end. -/
def commonEnd (as bs : List String) : Nat := commonStart as.reverse bs.reverse

end CodeSweep.Diff
