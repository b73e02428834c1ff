import CodeSweep.Text.Search

/-!
# Paths

A path is a text as it was written or joined, and is compared by its components: repeated slashes,
a trailing slash and `.` components (a leading one apart) do not count, `..` stays as it is.
-/

namespace CodeSweep

/-- A file path as it was written. -/
structure Path where
  text : String
deriving DecidableEq, Inhabited

namespace Path

/-- One step of a path. -/
inductive Component where
  | root
  | here
  | up
  | name (name : String)
deriving DecidableEq, Inhabited

/-- Components sort root first, then `.`, then `..`, then names by their characters. -/
def Component.rank : Component → Nat
  | .root => 0
  | .here => 1
  | .up => 2
  | .name _ => 3

/-- The order of components. -/
def Component.compare (a b : Component) : Ordering :=
  match a, b with
  | .name s, .name t => Ord.compare s t
  | a, b => Ord.compare a.rank b.rank

/-- The text of a component. -/
def Component.text : Component → String
  | .root => "/"
  | .here => "."
  | .up => ".."
  | .name s => s

/-- Whether the path starts at the root directory. -/
def isAbsolute (p : Path) : Bool := p.text.toList.head? == some '/'

/-- The component that a piece between slashes stands for, if any. -/
def ofPiece (piece : List Char) : Option Component :=
  if piece = [] ∨ piece = ['.'] then none
  else if piece = ['.', '.'] then some .up
  else some (.name (String.ofList piece))

/-- The steps of a path. A leading `.` is a step of its own; any other `.` is none. -/
def components (p : Path) : List Component :=
  match Text.pieces '/' p.text.toList with
  | [] => []
  | first :: rest =>
    let start :=
      if p.isAbsolute then [Component.root]
      else if first = ['.'] then [Component.here]
      else (ofPiece first).toList
    start ++ rest.filterMap ofPiece

/-- Two paths are the same when their steps are. -/
def same (p q : Path) : Bool := p.components == q.components

/-- The order of paths: component by component. -/
def compareComponents : List Component → List Component → Ordering
  | [], [] => .eq
  | [], _ :: _ => .lt
  | _ :: _, [] => .gt
  | a :: as, b :: bs => (a.compare b).then (compareComponents as bs)

/-- The order of paths: component by component. -/
def compare (p q : Path) : Ordering := compareComponents p.components q.components

/-- `q` seen from `p`: an absolute `q` replaces `p`, any other is written after it. -/
def join (p q : Path) : Path :=
  if q.isAbsolute then q
  else if p.text.isEmpty || p.text.toList.getLast? == some '/' then ⟨p.text ++ q.text⟩
  else ⟨p.text ++ "/" ++ q.text⟩

/-- The entry of that name inside the directory. -/
def child (p : Path) (name : String) : Path := p.join ⟨name⟩

/-- The last component, when it is a name. -/
def fileName (p : Path) : Option String :=
  match p.components.getLast? with
  | some (.name s) => some s
  | _ => none

/-- What follows the last dot of the file name; a dot that only leads the name does not count. -/
def extension (p : Path) : Option String :=
  p.fileName.bind fun name =>
    match Text.splitLast? '.' name.toList with
    | some (_ :: _, after) => some (String.ofList after)
    | _ => none

/-- The pieces between slashes, last first, from the last one that is a component of its own.
The piece before the first slash is one also when it is a lone dot. -/
def trimPieces : List (List Char) → List (List Char)
  | [] => []
  | [first] => if first = [] then [] else [first]
  | piece :: before => if (ofPiece piece).isNone then trimPieces before else piece :: before

/-- The text of pieces given last first. -/
def ofPieces (absolute : Bool) (pieces : List (List Char)) : Path :=
  match pieces with
  | [] => ⟨if absolute then "/" else ""⟩
  | _ => ⟨String.ofList (List.intercalate ['/'] pieces.reverse)⟩

/-- The path without its last component; the root and the empty path have none. -/
def parent (p : Path) : Option Path :=
  match trimPieces (Text.pieces '/' p.text.toList).reverse with
  | [] => none
  | _ :: before => some (ofPieces p.isAbsolute (trimPieces before))

/-- The path of the given components. -/
def ofComponents (cs : List Component) : Path :=
  cs.foldl (fun p c => p.child c.text) ⟨""⟩

end Path

end CodeSweep
