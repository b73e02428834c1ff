/-!
# Blanks and trimming

Output of other programs, names and addresses are read with surrounding white space taken off.
White space is the whole Unicode property, line and paragraph separators included.
-/

namespace CodeSweep.Text

/-- Whether a character is white space. -/
def isBlank (c : Char) : Bool :=
  let n := c.toNat
  (9 ≤ n && n ≤ 13) || n == 32 || n == 0x85 || n == 0xa0 || n == 0x1680 ||
    (0x2000 ≤ n && n ≤ 0x200a) || n == 0x2028 || n == 0x2029 || n == 0x202f || n == 0x205f ||
    n == 0x3000

/-- The characters without the leading run that satisfies `p`. -/
def dropLeading (p : Char → Bool) (cs : List Char) : List Char := cs.dropWhile p

/-- The characters without the trailing run that satisfies `p`. -/
def dropTrailing (p : Char → Bool) (cs : List Char) : List Char :=
  (cs.reverse.dropWhile p).reverse

/-- The characters without surrounding white space. -/
def trimChars (cs : List Char) : List Char := dropTrailing isBlank (dropLeading isBlank cs)

/-- The text without surrounding white space. -/
def trim (s : String) : String := String.ofList (trimChars s.toList)

end CodeSweep.Text
