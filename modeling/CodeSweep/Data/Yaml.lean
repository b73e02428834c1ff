import CodeSweep.Data.Yaml.Node

/-!
# Reading YAML

Reads a text that holds one document. Anchors are numbered as they come up, each by the number of
different names before it; where a name is given again, numbers repeat, and a number stands for the
node with it that begins last.
-/

namespace CodeSweep.Data.Yaml

/-- How far the anchors of a document are numbered. -/
structure Numbering where
  /-- The numbers that names stand for here, the latest first. -/
  names : List (String × Nat) := []
  /-- How many different names there are. -/
  count : Nat := 0
  /-- The data with numbers, that which begins last first. -/
  numbered : List (Nat × Data) := []
  /-- The number of texts and aliases, and of the brackets of collections. -/
  size : Nat := 0

/-- Numbering while data is made. It fails at an alias without an anchor before it. -/
abbrev Numbered := StateT Numbering Option

/-- Counts signs of the document. -/
def count (n : Nat) : Numbered Unit := modify fun s => { s with size := s.size + n }

/-- The number of a new anchor. -/
def newNumber (name : String) : Numbered Nat := fun s =>
  let known := (s.names.lookup name).isSome
  some (s.count,
    { s with names := (name, s.count) :: s.names, count := if known then s.count else s.count + 1 })

/-- Makes data that may have an anchor. Data inside it begins later than it does. -/
def anchored (anchor : Option String) (make : Numbered Data) : Numbered Data :=
  match anchor with
  | none => make
  | some name => do
    let number ← newNumber name
    let before := (← get).numbered
    modify fun s => { s with numbered := [] }
    let d ← make
    modify fun s => { s with numbered := s.numbered ++ (number, d) :: before }
    return d

/-- The data that an alias refers to. -/
def aliased (name : String) : Numbered Data := do
  count 1
  match (← get).names.lookup name with
  | some number => return .alias number
  | none => failure

/-- Text as data. -/
def textData (tag : Option Tag) (isPlain : Bool) (text : String) : Data :=
  let d := if isPlain then Data.plain text else .quoted text
  match tag with
  | some tag => .tagged tag d
  | none => d

mutual

/-- A node as data. -/
def nodeData : Node → Numbered Data
  | .alias name => aliased name
  | .text anchor tag isPlain text =>
    anchored anchor do
      count 1
      return textData tag isPlain text
  | .list anchor items =>
    anchored anchor do
      count 2
      return .sequence (← itemsData items)
  | .record anchor pairs =>
    anchored anchor do
      count 2
      return .record (← pairsData pairs)

/-- The items of a list as data. -/
def itemsData : List Node → Numbered (List Data)
  | [] => return []
  | n :: ns => return (← nodeData n) :: (← itemsData ns)

/-- The pairs of a record as data. -/
def pairsData : List (Node × Node) → Numbered (List (Data × Data))
  | [] => return []
  | (k, v) :: ps => return (← nodeData k, ← nodeData v) :: (← pairsData ps)

end

/-- A node as a document. References may be followed a hundred times for each of its signs. -/
def Node.toDocument? (n : Node) : Option Document :=
  ((nodeData n).run {}).map fun (root, s) =>
    { root, numbered := s.numbered, limit := 100 * s.size }

/-- Whether a character may stand in a document. -/
def isAllowed (c : Char) : Bool :=
  let n := c.toNat
  n == 9 || n == 10 || n == 13 || (32 ≤ n && n ≤ 126) || n == 0x85 || (0xa0 ≤ n && n ≤ 0xd7ff) ||
    (0xe000 ≤ n && n ≤ 0xfffd) || 0x10000 ≤ n

/-- Reads a text that is one document. -/
def read? (s : String) : Option Document :=
  let cs := s.toList
  if cs.all isAllowed then ((tokens? cs).bind Node.ofTokens?).bind (·.toDocument?) else none

end CodeSweep.Data.Yaml
