/-!
# Byte offsets into text

Offsets count the bytes of a text's UTF-8 form. A text can be cut at an offset only where a
character begins or at its very end.
-/

namespace CodeSweep.Text

/-- The number of bytes of the characters. -/
def byteLength : List Char → Nat
  | [] => 0
  | c :: cs => c.utf8Size + byteLength cs

/-- What stands before and after the given number of bytes, unless that is beyond the end or inside
a character. -/
def cut? : Nat → List Char → Option (List Char × List Char)
  | 0, cs => some ([], cs)
  | _ + 1, [] => none
  | n + 1, c :: cs =>
    if c.utf8Size ≤ n + 1 then
      (cut? (n + 1 - c.utf8Size) cs).map fun (before, after) => (c :: before, after)
    else none

/-- The characters between two offsets, if the text can be cut at both. -/
def between? (start stop : Nat) (cs : List Char) : Option (List Char) :=
  if stop < start then none
  else
    (cut? start cs).bind fun (_, after) => (cut? (stop - start) after).map (·.1)

/-- Row and column of an offset, both from zero; the column counts bytes. -/
def position (offset : Nat) (cs : List Char) : Nat × Nat :=
  let before := ((cut? offset cs).map (·.1)).getD cs
  let line := (before.reverse.takeWhile (· != '\n')).reverse
  (before.count '\n', byteLength line)

end CodeSweep.Text
