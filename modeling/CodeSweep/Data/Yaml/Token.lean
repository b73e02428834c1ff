import CodeSweep.Data.Yaml.Scalar
import CodeSweep.Data.Yaml.Tag

/-!
# Tokens of YAML

The text of a document as a list of tokens. Indentation becomes tokens that open and close
collections. That something was a key is known only at the colon after it; until then its place is
remembered, and the tokens that a key needs are put there. Such a key stands on one line and has at
most 1024 characters.
-/

namespace CodeSweep.Data.Yaml

/-- A token. -/
inductive Token where
  | directive (d : Directive)
  | documentStart
  | documentEnd
  /-- A list by indentation begins. -/
  | itemsStart
  /-- A record by indentation begins. -/
  | pairsStart
  /-- A collection by indentation ends. -/
  | dedent
  | openList
  | closeList
  | openRecord
  | closeRecord
  | item
  | comma
  | key
  | value
  | alias (name : String)
  | anchor (name : String)
  | tag (name : TagName)
  | text (plain : Bool) (text : String)
deriving DecidableEq

/-- A place where a key may turn out to stand. -/
structure KeyPlace where
  /-- The number of tokens before it. -/
  position : Nat
  start : Cursor
  /-- Whether nothing but a key can stand there. -/
  required : Bool

/-- Whether it is too late for a colon after the key. -/
def KeyPlace.isPast (k : KeyPlace) (c : Cursor) : Bool :=
  k.start.line < c.line || k.start.index + 1024 < c.index

/-- How far a text has been cut into tokens. -/
structure Scan where
  cursor : Cursor
  tokens : Array Token := #[]
  /-- The column of the innermost collection by indentation. -/
  indent : Int := -1
  /-- The columns of those around it. -/
  outer : List Int := []
  /-- Where a key may stand in the innermost brackets. -/
  place : Option KeyPlace := none
  /-- The same for what is around them. -/
  places : List (Option KeyPlace) := []
  /-- Whether a key may begin here. -/
  keyAllowed : Bool := true

namespace Scan

/-- Whether the text here stands between brackets. -/
def flow (s : Scan) : Bool := !s.places.isEmpty

/-- One more token. -/
def emit (s : Scan) (t : Token) : Scan := { s with tokens := s.tokens.push t }

/-- A token of one character. -/
def emitSign (s : Scan) (t : Token) : Scan := { s.emit t with cursor := s.cursor.next }

/-- Allows a key here, or not. -/
def allow (s : Scan) (keyAllowed : Bool) : Scan := { s with keyAllowed }

/-! ### Places of keys -/

/-- Gives up on a key that is not required. -/
def dropKey? (s : Scan) : Option Scan :=
  if s.place.any (·.required) then none else some { s with place := none }

/-- Remembers that a key may stand here. -/
def noteKey? (s : Scan) : Option Scan :=
  if !s.keyAllowed then some s
  else
    let required := !s.flow && s.indent == s.cursor.col
    s.dropKey?.map fun s =>
      { s with place := some { position := s.tokens.size, start := s.cursor, required } }

/-- Gives up on keys for which it is too late. -/
def dropPast? (s : Scan) : Option Scan :=
  let past (place : Option KeyPlace) : Bool := place.any (·.isPast s.cursor)
  let drop (place : Option KeyPlace) : Option KeyPlace := if past place then none else place
  if (s.place :: s.places).any fun p => past p && p.any (·.required) then none
  else some { s with place := drop s.place, places := s.places.map drop }

/-! ### Indentation -/

/-- Opens a collection by indentation in front of a token, if its column is a new one. -/
def indentTo (s : Scan) (col position : Nat) (t : Token) : Scan :=
  if s.flow || (col : Int) ≤ s.indent then s
  else { s with
    indent := col
    outer := s.indent :: s.outer
    tokens := s.tokens.insertIdxIfInBounds position t }

/-- Closes the innermost collections by indentation, down to a column. -/
def dedentFrom (col : Int) (tokens : Array Token) (indent : Int) : List Int → Array Token × Int × List Int
  | [] => (tokens, indent, [])
  | i :: outer =>
    if col < indent then dedentFrom col (tokens.push .dedent) i outer else (tokens, indent, i :: outer)

/-- Closes the collections by indentation that do not reach a column. -/
def dedentTo (s : Scan) (col : Int) : Scan :=
  if s.flow then s
  else
    let (tokens, indent, outer) := dedentFrom col s.tokens s.indent s.outer
    { s with tokens, indent, outer }

/-- Closes all collections by indentation. -/
def close? (s : Scan) : Option Scan := ((s.dedentTo (-1)).dropKey?).map (·.allow false)

/-! ### Tokens -/

/-- On to the next token, over blanks, comments and line breaks. Tabs are blanks where no key may
begin. -/
def toToken : Nat → Scan → Scan
  | 0, s => s
  | fuel + 1, s =>
    let c := s.cursor
    let c := if c.col == 0 && c.sees '\ufeff' then c.next else c
    let c := c.skipWhile fun ch => ch == ' ' || ((s.flow || !s.keyAllowed) && ch == '\t')
    let c := if c.sees '#' then c.skipWhile (!isBreak ·) else c
    match c.crossLine? with
    | some (_, next) => toToken fuel { s with cursor := next, keyAllowed := s.keyAllowed || !s.flow }
    | none => { s with cursor := c }

/-- An opening bracket, which may begin a key. -/
def openFlow? (s : Scan) (t : Token) : Option Scan :=
  s.noteKey?.map fun s =>
    { s.emitSign t with place := none, places := s.place :: s.places, keyAllowed := true }

/-- A closing bracket. -/
def closeFlow? (s : Scan) (t : Token) : Option Scan :=
  s.dropKey?.map fun s =>
    let s := (s.emitSign t).allow false
    match s.places with
    | [] => s
    | place :: places => { s with place, places }

/-- A comma. -/
def comma? (s : Scan) : Option Scan := s.dropKey?.map fun s => (s.emitSign .comma).allow true

/-- The dash of an item. -/
def item? (s : Scan) : Option Scan :=
  if !s.flow && !s.keyAllowed then none
  else
    (s.indentTo s.cursor.col s.tokens.size .itemsStart).dropKey?.map fun s =>
      (s.emitSign .item).allow true

/-- The sign of a key that is not told by its colon. -/
def key? (s : Scan) : Option Scan :=
  if !s.flow && !s.keyAllowed then none
  else
    (s.indentTo s.cursor.col s.tokens.size .pairsStart).dropKey?.map fun s =>
      (s.emitSign .key).allow !s.flow

/-- The colon in front of a value. -/
def value? (s : Scan) : Option Scan :=
  match s.place with
  | some k =>
    let s := { s with tokens := s.tokens.insertIdxIfInBounds k.position .key, place := none }
    some (((s.indentTo k.start.col k.position .pairsStart).emitSign .value).allow false)
  | none =>
    if !s.flow && !s.keyAllowed then none
    else
      let s := s.indentTo s.cursor.col s.tokens.size .pairsStart
      some ((s.emitSign .value).allow !s.flow)

/-- An anchor or an alias, whose name ends at a blank or at one of some signs. -/
def name? (s : Scan) (token : String → Token) : Option Scan :=
  s.noteKey?.bind fun s =>
    let start := s.cursor.next
    let name := start.rest.takeWhile isNameChar
    let after := start.skip name.length
    let closing := ['?', ':', ',', ']', '\x7d', '%', '@', '\x60']
    if name.isEmpty || !(endsWord after.rest || after.rest.head?.any closing.contains) then none
    else some { (s.emit (token (String.ofList name))).allow false with cursor := after }

/-- A tag. -/
def tag? (s : Scan) : Option Scan :=
  s.noteKey?.bind fun s =>
    (tagName? s.cursor).bind fun (name, after) =>
      if endsWord after.rest || (s.flow && after.sees ',') then
        some { (s.emit (.tag name)).allow false with cursor := after }
      else none

/-- Text of any kind that may be a key. -/
def text? (s : Scan) (plain : Bool) (read : Cursor → Option Reading) : Option Scan :=
  s.noteKey?.bind fun s =>
    (read s.cursor).map fun r =>
      { (s.emit (.text plain (String.ofList r.text))).allow r.crossed with cursor := r.after }

/-- Block text. -/
def block? (s : Scan) (folded : Bool) : Option Scan :=
  s.dropKey?.bind fun s =>
    (blockText? folded s.indent s.cursor).map fun r =>
      { (s.emit (.text false (String.ofList r.text))).allow true with cursor := r.after }

/-- A mark that starts or ends a document. -/
def mark? (s : Scan) (t : Token) : Option Scan :=
  s.close?.map fun s => { s.emit t with cursor := s.cursor.skip 3 }

/-- A directive. -/
def directives? (s : Scan) : Option Scan :=
  s.close?.bind fun s =>
    (directive? s.cursor).map fun (d, after) => { s.emit (.directive d) with cursor := after }

/-- The token at the cursor, which is not at the end. -/
def token? (s : Scan) : Option Scan :=
  let c := s.cursor
  let alone := s.flow || endsWord (c.rest.drop 1)
  if c.col == 0 && c.sees '%' then s.directives?
  else if c.seesMark '-' then s.mark? .documentStart
  else if c.seesMark '.' then s.mark? .documentEnd
  else
    match c.rest.head? with
    | some '[' => s.openFlow? .openList
    | some '\x7b' => s.openFlow? .openRecord
    | some ']' => s.closeFlow? .closeList
    | some '\x7d' => s.closeFlow? .closeRecord
    | some ',' => s.comma?
    | some '*' => s.name? .alias
    | some '&' => s.name? .anchor
    | some '!' => s.tag?
    | some '\'' => s.text? false (quotedText? false)
    | some '"' => s.text? false (quotedText? true)
    | some ch =>
      if ch == '-' && endsWord (c.rest.drop 1) then s.item?
      else if ch == '?' && alone then s.key?
      else if ch == ':' && alone then s.value?
      else if (ch == '|' || ch == '>') && !s.flow then s.block? (ch == '>')
      else if startsPlain s.flow c.rest then s.text? true (plainText? s.flow (s.indent + 1).toNat)
      else none
    | none => none

/-- Cuts the rest of the text into tokens. Each takes at least one character. -/
def run? : Nat → Scan → Option (List Token)
  | 0, _ => none
  | fuel + 1, s =>
    match (toToken (s.cursor.rest.length + 1) s).dropPast? with
    | none => none
    | some s =>
      if s.cursor.rest.isEmpty then s.close?.map (·.tokens.toList)
      else (s.dedentTo s.cursor.col).token?.bind (run? fuel)

end Scan

/-- Cuts a text into tokens. -/
def tokens? (cs : List Char) : Option (List Token) := Scan.run? (cs.length + 1) { cursor := { rest := cs } }

end CodeSweep.Data.Yaml
