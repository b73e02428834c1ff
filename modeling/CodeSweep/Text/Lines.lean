import CodeSweep.Text.Search

/-!
# Lines of program output

A line ends at a line feed, and a carriage return right before it belongs to the ending. What
follows the last line feed is a line only if it is not empty.
-/

namespace CodeSweep.Text

/-- A line without the carriage return of its ending. -/
def dropReturn (line : List Char) : List Char :=
  (dropEnding? ['\r'] line).getD line

/-- The lines of the text, without their endings: all pieces but the last lost a line feed, and
the last is a line only if something stands there. -/
def lineChars (cs : List Char) : List (List Char) :=
  let ps := pieces '\n' cs
  let ended := ps.dropLast.map dropReturn
  match ps.getLast? with
  | none | some [] => ended
  | some rest => ended ++ [rest]

/-- The lines of the text, without their endings. -/
def lines (s : String) : List String := (lineChars s.toList).map String.ofList

end CodeSweep.Text
