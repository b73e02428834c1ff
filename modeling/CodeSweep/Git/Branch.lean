import CodeSweep.Text.Blank
import CodeSweep.Text.Lines

/-!
# Branch listings

What `git` prints about branches, read back. A local listing has a branch on each line, with a star
in front of the one that is checked out; a remote listing has a hash and a full reference on each
line.
-/

namespace CodeSweep

/-- A branch as it was seen at one moment. -/
structure Branch where
  name : String
  selected : Bool
deriving DecidableEq, Inhabited

namespace Branch

/-- The branch on a line of a local listing. -/
def ofLine (line : List Char) : Branch :=
  { name := String.ofList (Text.trimChars (line.filter (· != '*')))
    selected := line.head? == some '*' }

/-- Reads a listing of local branches. Blank lines do not count. -/
def readLocal (stdout : String) : List Branch :=
  ((Text.lineChars stdout.toList).filter fun line => !(Text.trimChars line).isEmpty).map ofLine

/-- Where a remote branch's name begins. -/
def headsMark : List Char := "refs/heads/".toList

/-- The branch on a line of a remote listing. -/
def ofRemoteLine? (line : List Char) : Option Branch :=
  match Text.splitFirst? headsMark (Text.trimChars line) with
  | some (_, c :: name) => some { name := String.ofList (c :: name), selected := false }
  | _ => none

/-- Reads a listing of remote branches. Lines without a branch do not count. -/
def readRemote (stdout : String) : List Branch :=
  (Text.lineChars stdout.toList).filterMap ofRemoteLine?

end Branch

end CodeSweep
