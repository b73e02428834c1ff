/-!
# Structured data

Data as it comes out of a configuration file or another program's output, before it is known what it
means. Text that was written without quotes keeps its spelling, because what it means depends on
where it is wanted: where text is wanted it is that text, where something optional is wanted some
spellings mean that there is nothing. Data may refer to other data of the same document, also to data
that it is part of.
-/

namespace CodeSweep

/-- The name of a kind of data, in octets that need not be text. -/
structure Tag where
  octets : List UInt8
deriving DecidableEq, Inhabited

namespace Tag

/-- The tag with a given name. -/
def ofText (name : String) : Tag := ⟨name.toUTF8.data.toList⟩

/-- The kind of data that says there is nothing. -/
def null : Tag := ofText "tag:yaml.org,2002:null"

/-- The name of a kind that the document itself introduces: what follows the mark for that. -/
def ownName? (tag : Tag) : Option String :=
  match tag.octets with
  | 0x21 :: name => String.fromUTF8? ⟨name.toArray⟩
  | _ => none

end Tag

/-- Data of unknown meaning. -/
inductive Data where
  | null
  /-- A number or a truth value where these are not text. -/
  | atom
  /-- Text that was given as such. -/
  | quoted (text : String)
  /-- Text without quotes. -/
  | plain (text : String)
  /-- Data of a kind that was said. -/
  | tagged (tag : Tag) (data : Data)
  /-- The data that has a number in its document. -/
  | alias (number : Nat)
  /-- A list that may also stand for a record, given by position. -/
  | array (items : List Data)
  | sequence (items : List Data)
  | record (fields : List (Data × Data))
deriving Inhabited

/-- Spellings that mean nothing where something optional is wanted. -/
def Data.isNull (text : String) : Bool := ["~", "null", "Null", "NULL"].contains text

/-- Data on its own, whatever kind was said. -/
def Data.bare : Data → Data
  | .tagged _ d => d
  | d => d

/-- Whether there is something; it cannot be told of data that is said to be nothing and is not. -/
def Data.isSome? : Data → Option Bool
  | .null => some false
  | .plain s => some !(s.isEmpty || isNull s)
  | .tagged tag (.plain s) =>
    if tag = Tag.null then (if isNull s then some false else none) else some true
  | _ => some true

/-- Data with all that it refers to. -/
structure Document where
  root : Data
  /-- What has a number; of two with one number the first counts. -/
  numbered : List (Nat × Data) := []
  /-- How many references may be followed in all. -/
  limit : Nat := 0
deriving Inhabited

end CodeSweep
