/-!
# Places in a YAML text

A cursor is a place in a text: what is left to read there, and where that is. Lines end at any of the
line breaks that the notation knows, of which most count as the same; the two separators of lines and
paragraphs stay what they are.
-/

namespace CodeSweep.Data.Yaml

/-- Whether a character is a blank within a line. -/
def isBlank (c : Char) : Bool := c == ' ' || c == '\t'

/-- Line breaks that all count as the same. -/
def isPlainBreak (c : Char) : Bool := c == '\n' || c == '\r' || c == '\u0085'

/-- Whether a character ends a line. -/
def isBreak (c : Char) : Bool := isPlainBreak c || c == '\u2028' || c == '\u2029'

/-- Whether a character may stand in the name of an anchor, a handle or a directive. -/
def isNameChar (c : Char) : Bool := c.isAlphanum || c == '-' || c == '_'

/-- The signs that structure data between brackets. -/
def isFlowSign (c : Char) : Bool := c == ',' || c == '[' || c == ']' || c == '\x7b' || c == '\x7d'

/-- Whether a word ends here: at a blank, a line break or the end. -/
def endsWord : List Char → Bool
  | [] => true
  | c :: _ => isBlank c || isBreak c

/-- The line break that the text begins with, in its common spelling, and its length. -/
def lineBreak? : List Char → Option (Char × Nat)
  | [] => none
  | '\r' :: '\n' :: _ => some ('\n', 2)
  | c :: _ => if isPlainBreak c then some ('\n', 1) else if isBreak c then some (c, 1) else none

/-- A place in a text. -/
structure Cursor where
  /-- What is left to read. -/
  rest : List Char
  /-- The number of characters before it. -/
  index : Nat := 0
  line : Nat := 0
  col : Nat := 0
deriving Inhabited

namespace Cursor

/-- Some characters on, on the same line. -/
def skip (c : Cursor) (n : Nat) : Cursor :=
  { c with rest := c.rest.drop n, index := c.index + n, col := c.col + n }

/-- One character on. -/
def next (c : Cursor) : Cursor := c.skip 1

/-- On to the first character without a property. -/
def skipWhile (p : Char → Bool) (c : Cursor) : Cursor := c.skip (c.rest.takeWhile p).length

/-- The line break here, and the start of the next line. -/
def crossLine? (c : Cursor) : Option (Char × Cursor) :=
  (lineBreak? c.rest).map fun (b, n) =>
    (b, { rest := c.rest.drop n, index := c.index + n, line := c.line + 1, col := 0 })

/-- Whether the next character is `ch`. -/
def sees (c : Cursor) (ch : Char) : Bool := c.rest.head? == some ch

/-- Whether a mark of three such signs, alone at the start of a line, stands here. -/
def seesMark (c : Cursor) (sign : Char) : Bool :=
  c.col == 0 && c.rest.take 3 == [sign, sign, sign] && endsWord (c.rest.drop 3)

/-- Whether a document starts or ends here. -/
def atMark (c : Cursor) : Bool := c.seesMark '-' || c.seesMark '.'

/-- Over blanks and a comment, and the line break after them; nothing else may follow on the line. -/
def finishLine? (c : Cursor) : Option Cursor :=
  let c := c.skipWhile isBlank
  let c := if c.sees '#' then c.skipWhile (!isBreak ·) else c
  match c.crossLine? with
  | some (_, next) => some next
  | none => if c.rest.isEmpty then some c else none

end Cursor

end CodeSweep.Data.Yaml
