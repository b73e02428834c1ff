import CodeSweep.Data.Json
import CodeSweep.Data.Yaml.Cursor

/-!
# Text in YAML

Text can be written plainly, between single or double quotes, or as an indented block. Plain and
quoted text may go over several lines: a line break inside it counts as a blank, and each further one
as a line break.
-/

namespace CodeSweep.Data.Yaml

/-! ### Gaps between words -/

/-- Blanks and line breaks between two words. -/
structure Gap where
  /-- The blanks before the first line break. -/
  blanks : List Char := []
  /-- Whether a line was left. -/
  crossed : Bool := false
  /-- The first line break, unless it was escaped. -/
  first : Option Char := none
  /-- All further line breaks. -/
  more : List Char := []

namespace Gap

/-- What a gap stands for. -/
def text (g : Gap) : List Char :=
  if !g.crossed then g.blanks
  else if g.first == some '\n' then (if g.more.isEmpty then [' '] else g.more)
  else g.first.toList ++ g.more

/-- The gap with one more blank. -/
def blank (g : Gap) (c : Char) : Gap := if g.crossed then g else { g with blanks := g.blanks ++ [c] }

/-- The gap with one more line break. -/
def cross (g : Gap) (b : Char) : Gap :=
  if g.crossed then { g with more := g.more ++ [b] } else { g with crossed := true, first := some b }

/-- Reads on in a gap up to its end. After a line break, tabs before the column `indent` are refused. -/
def readOn (indent : Nat) : Nat → Gap → Cursor → Option (Gap × Cursor)
  | 0, g, c => some (g, c)
  | fuel + 1, g, c =>
    match c.rest with
    | [] => some (g, c)
    | ch :: _ =>
      if isBlank ch then
        if g.crossed && ch == '\t' && c.col < indent then none
        else readOn indent fuel (g.blank ch) c.next
      else
        match c.crossLine? with
        | some (b, next) => readOn indent fuel (g.cross b) next
        | none => some (g, c)

end Gap

/-! ### Plain text -/

/-- The signs that nothing plain begins with, whatever follows them. -/
def neverPlain : List Char := ['#', '&', '*', '!', '|', '>', '\'', '"', '%', '@', '\x60']

/-- Whether plain text can begin here. -/
def startsPlain (flow : Bool) : List Char → Bool
  | [] => false
  | '-' :: cs => !endsWord cs
  | '?' :: cs | ':' :: cs => !flow && !endsWord cs
  | c :: _ => !isBlank c && !isBreak c && !isFlowSign c && !neverPlain.contains c

/-- The plain word here. Between brackets, a colon with a structuring sign after it is refused. -/
def plainWord? (flow : Bool) : List Char → Option (List Char)
  | [] => some []
  | c :: cs =>
    if isBlank c || isBreak c then some []
    else if flow && c == ':' && cs.head?.any (fun d => isFlowSign d || d == '?') then none
    else if (c == ':' && endsWord cs) || (flow && isFlowSign c) then some []
    else (plainWord? flow cs).map (c :: ·)

/-- What was read of a text: its characters, the place after it, and whether that is at the start of
a line. -/
structure Reading where
  text : List Char
  after : Cursor
  crossed : Bool := false

/-- Reads plain text on after a gap. Outside brackets it goes on as long as its lines begin at the
column `indent` or later. -/
def plainFrom (flow : Bool) (indent : Nat) : Nat → Gap → Cursor → Option Reading
  | 0, _, _ => none
  | fuel + 1, g, c =>
    if c.atMark || c.sees '#' then some { text := [], after := c, crossed := g.crossed }
    else
      match plainWord? flow c.rest with
      | none => none
      | some [] => some { text := [], after := c, crossed := g.crossed }
      | some word =>
        let here := c.skip word.length
        match Gap.readOn indent here.rest.length {} here with
        | none => none
        | some (gap, there) =>
          let text := g.text ++ word
          if there.index == here.index then some { text, after := here }
          else if !flow && there.col < indent then some { text, after := there, crossed := gap.crossed }
          else (plainFrom flow indent fuel gap there).map fun r => { r with text := text ++ r.text }

/-- Reads plain text. -/
def plainText? (flow : Bool) (indent : Nat) (c : Cursor) : Option Reading :=
  plainFrom flow indent (c.rest.length + 1) {} c

/-! ### Quoted text -/

/-- The number that hexadecimal digits stand for. -/
def hex? : (digits acc : Nat) → List Char → Option Nat
  | 0, acc, _ => some acc
  | n + 1, acc, c :: cs => (Json.hexDigit? c).bind fun d => hex? n (acc * 16 + d) cs
  | _ + 1, _, [] => none

/-- The character of a code, if there is one. -/
def charOf? (n : Nat) : Option Char := if n.isValidChar then some (Char.ofNat n) else none

/-- The characters that stand for others after a backslash. -/
def namedEscapes : List (Char × Char) :=
  [('0', '\x00'), ('a', '\x07'), ('b', '\x08'), ('t', '\t'), ('\t', '\t'), ('n', '\n'), ('v', '\x0b'),
    ('f', '\x0c'), ('r', '\r'), ('e', '\x1b'), (' ', ' '), ('"', '"'), ('/', '/'), ('\\', '\\'),
    ('N', '\u0085'), ('_', '\u00a0'), ('L', '\u2028'), ('P', '\u2029')]

/-- The number of hexadecimal digits after an escape. -/
def codeLength? : Char → Option Nat
  | 'x' => some 2
  | 'u' => some 4
  | 'U' => some 8
  | _ => none

/-- The character that is written after a backslash, and how long that is. -/
def escape? : List Char → Option (Char × Nat)
  | [] => none
  | c :: cs =>
    match codeLength? c with
    | some n => ((hex? n 0 cs).bind charOf?).map (·, n + 1)
    | none => (namedEscapes.lookup c).map (·, 1)

/-- Reads quoted text up to a blank, a line break or the closing quote; an escaped line break also
ends it, and is left. -/
def quotedWord? (double : Bool) : Nat → Cursor → Option Reading
  | 0, _ => none
  | fuel + 1, c =>
    match c.rest with
    | [] => some { text := [], after := c }
    | ch :: cs =>
      if !double && ch == '\'' && cs.head? == some '\'' then
        (quotedWord? double fuel (c.skip 2)).map fun r => { r with text := '\'' :: r.text }
      else if isBlank ch || isBreak ch || ch == (if double then '"' else '\'') then
        some { text := [], after := c }
      else if double && ch == '\\' then
        match c.next.crossLine? with
        | some (_, next) => some { text := [], after := next, crossed := true }
        | none =>
          match escape? cs with
          | some (e, n) =>
            (quotedWord? double fuel (c.skip (n + 1))).map fun r => { r with text := e :: r.text }
          | none => none
      else (quotedWord? double fuel c.next).map fun r => { r with text := ch :: r.text }

/-- Reads quoted text up to and with its closing quote. Documents do not start or end inside. -/
def quotedFrom (double : Bool) : Nat → Cursor → Option Reading
  | 0, _ => none
  | fuel + 1, c =>
    if c.atMark || c.rest.isEmpty then none
    else
      match quotedWord? double (c.rest.length + 1) c with
      | none => none
      | some word =>
        if word.after.sees (if double then '"' else '\'') then
          some { text := word.text, after := word.after.next }
        else
          match Gap.readOn 0 word.after.rest.length { crossed := word.crossed } word.after with
          | none => none
          | some (gap, there) =>
            (quotedFrom double fuel there).map fun r => { r with text := word.text ++ gap.text ++ r.text }

/-- Reads the quoted text that begins here with its opening quote. -/
def quotedText? (double : Bool) (c : Cursor) : Option Reading :=
  quotedFrom double (c.rest.length + 1) c.next

/-! ### Block text -/

/-- What to do with the line breaks at the end of a block. -/
inductive Chomp where
  | strip
  | clip
  | keep
deriving DecidableEq

/-- The chomping that a sign asks for. -/
def chomp? : Char → Option Chomp
  | '+' => some .keep
  | '-' => some .strip
  | _ => none

/-- The indentation that a digit asks for. -/
def increment? (c : Char) : Option Nat :=
  if '1' ≤ c ∧ c ≤ '9' then some (c.toNat - '0'.toNat) else none

/-- The chomping and the indentation that a block's header asks for, and where its lines begin. -/
def blockHeader? (c : Cursor) : Option (Chomp × Option Nat × Cursor) :=
  let first := c.rest.head?
  let second := c.rest.tail.head?
  let (chomp, indent, n) : Chomp × Option Nat × Nat :=
    match first.bind chomp?, first.bind increment?, second.bind chomp?, second.bind increment? with
    | some k, _, _, some d => (k, some d, 2)
    | some k, _, _, none => (k, none, 1)
    | none, some d, some k, _ => (k, some d, 2)
    | none, some d, none, _ => (.clip, some d, 1)
    | none, none, _, _ => (.clip, none, 0)
  (c.skip n).finishLine?.map fun next => (chomp, indent, next)

/-- Reads empty lines: their line breaks, the widest indentation on the way, and where the next line
with text begins. A tab in the indentation is refused. -/
def emptyLines? (indent : Option Nat) : Nat → (widest : Nat) → Cursor → Option (List Char × Nat × Cursor)
  | 0, _, _ => none
  | fuel + 1, widest, c =>
    let blanks := (c.rest.takeWhile (· == ' ')).length
    let c := c.skip ((indent.map fun n => min blanks (n - c.col)).getD blanks)
    let widest := max widest c.col
    if c.sees '\t' && indent.all (c.col < ·) then none
    else
      match c.crossLine? with
      | some (b, next) => (emptyLines? indent fuel widest next).map fun (bs, w, c) => (b :: bs, w, c)
      | none => some ([], widest, c)

/-- What stands between the last line with text and the next one. -/
structure BlockGap where
  /-- The end of the last line. -/
  first : Option Char := none
  /-- The empty lines since. -/
  more : List Char := []
  /-- Whether the last line began with a blank. -/
  inset : Bool := false

/-- What joins the next line to the block. A folded line break counts as a blank, but not beside a
line that begins with one. -/
def BlockGap.text (folded : Bool) (g : BlockGap) (inset : Bool) : List Char :=
  if folded && g.first == some '\n' && !g.inset && !inset then
    (if g.more.isEmpty then [' '] else g.more)
  else g.first.toList ++ g.more

/-- The line breaks at the end of a block that stay. -/
def BlockGap.ending (g : BlockGap) : Chomp → List Char
  | .strip => []
  | .clip => g.first.toList
  | .keep => g.first.toList ++ g.more

/-- Reads the lines of a block from the column `indent` on. -/
def blockLines? (folded : Bool) (chomp : Chomp) (indent : Nat) : Nat → BlockGap → Cursor → Option Reading
  | 0, _, _ => none
  | fuel + 1, g, c =>
    if c.col != indent || c.rest.isEmpty then some { text := g.ending chomp, after := c }
    else
      let line := c.rest.takeWhile (!isBreak ·)
      let inset := line.head?.any isBlank
      let ending := c.skip line.length
      let (first, next) : Option Char × Cursor := match ending.crossLine? with
        | some (b, next) => (some b, next)
        | none => (none, ending)
      match emptyLines? (some indent) (next.rest.length + 1) 0 next with
      | none => none
      | some (more, _, start) =>
        (blockLines? folded chomp indent fuel { first, more, inset } start).map fun r =>
          { r with text := g.text folded inset ++ line ++ r.text }

/-- Reads the block that begins here with its sign, inside a collection at the column `parent`.
Without a wish for its indentation, that is the widest up to its first line with text. -/
def blockText? (folded : Bool) (parent : Int) (c : Cursor) : Option Reading :=
  match blockHeader? c.next with
  | none => none
  | some (chomp, wanted, start) =>
    let least := (parent + 1).toNat
    let indent? := wanted.map fun n => if 0 ≤ parent then parent.toNat + n else n
    match emptyLines? indent? (start.rest.length + 1) 0 start with
    | none => none
    | some (more, widest, first) =>
      let indent := indent?.getD (max 1 (max widest least))
      blockLines? folded chomp indent (first.rest.length + 1) { more } first

end CodeSweep.Data.Yaml
