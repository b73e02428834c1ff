import CodeSweep.Ordered
import CodeSweep.Text.Offset

/-!
# Edits

An edit replaces a span of bytes by a text. A batch of edits is committed in one pass from the left:
edits are taken in order of position, length and text, and one that overlaps an edit already taken,
reaches beyond the text or splits a character is left out and not counted.
-/

namespace CodeSweep

/-- Replaces the `deleted` bytes from `position` on by `text`. -/
structure Edit where
  position : Nat
  deleted : Nat
  text : String
deriving DecidableEq, Inhabited

/-- A text after a batch of edits, with the number of edits that were applied. -/
structure Committed where
  text : String
  applied : Nat
deriving DecidableEq, Inhabited

namespace Edit

/-- Offsets are words of 64 bits. -/
def offsetLimit : Nat := 0x10000000000000000

/-- The edit that replaces what stands from `start` up to `stop`. -/
def ofRange (start stop : Nat) (text : String) : Edit :=
  { position := start, deleted := stop - start, text }

/-- Where the replaced span ends, unless that is no offset. -/
def stop? (e : Edit) : Option Nat :=
  if e.position + e.deleted < offsetLimit then some (e.position + e.deleted) else none

/-- Edits are taken by position, then by length, then by text. -/
def order (a b : Edit) : Ordering :=
  (compare a.position b.position).then
    ((compare a.deleted b.deleted).then (compare a.text b.text))

/-- What the edit keeps of the text from `cursor` on, what it leaves after its span and where that
begins; nothing when the edit cannot be applied there. -/
def take? (e : Edit) (cursor : Nat) (rest : List Char) : Option (List Char × List Char × Nat) :=
  if e.position < cursor then none
  else
    e.stop?.bind fun stop =>
      (Text.cut? (e.position - cursor) rest).bind fun (kept, span) =>
        (Text.cut? e.deleted span).map fun (_, after) => (kept, after, stop)

/-- Applies edits in the given order to the text that begins at offset `cursor`. -/
def splice (cursor : Nat) (rest : List Char) : List Edit → List Char × Nat
  | [] => (rest, 0)
  | e :: es =>
    match e.take? cursor rest with
    | none => splice cursor rest es
    | some (kept, after, stop) =>
      let (text, applied) := splice stop after es
      (kept ++ e.text.toList ++ text, applied + 1)

/-- Commits a batch of edits. -/
def commit (source : String) (edits : List Edit) : Committed :=
  let (text, applied) := splice 0 source.toList (Ordered.ofList order edits)
  { text := String.ofList text, applied }

end Edit

end CodeSweep
