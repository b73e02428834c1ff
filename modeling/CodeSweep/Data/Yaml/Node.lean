import CodeSweep.Data.Yaml.Token

/-!
# Nodes of YAML

The tokens of a text as one tree of nodes. A node may have an anchor, by which later nodes can stand
for it, and text may have a tag. Where a node is missing, it is empty plain text.
-/

namespace CodeSweep.Data.Yaml

/-- Data as it is written. -/
inductive Node where
  | alias (name : String)
  | text (anchor : Option String) (tag : Option Tag) (plain : Bool) (text : String)
  | list (anchor : Option String) (items : List Node)
  | record (anchor : Option String) (pairs : List (Node × Node))
deriving Inhabited

namespace Node

/-- The node where none is written. -/
def empty : Node := .text none none true ""

/-- What may stand in front of a node: an anchor and a tag, each at most once, in any order. -/
def properties : List Token → Option String × Option TagName × List Token
  | .anchor a :: .tag t :: ts => (some a, some t, ts)
  | .anchor a :: ts => (some a, none, ts)
  | .tag t :: .anchor a :: ts => (some a, some t, ts)
  | .tag t :: ts => (none, some t, ts)
  | ts => (none, none, ts)

/-- Whether no node begins here, in a list by indentation. -/
def endsItem : List Token → Bool
  | .item :: _ | .dedent :: _ => true
  | _ => false

/-- Whether no node begins here, in a record by indentation. -/
def endsPair : List Token → Bool
  | .key :: _ | .value :: _ | .dedent :: _ => true
  | _ => false

/-- Whether no node begins here, between brackets. -/
def endsFlow (closing : Token) : List Token → Bool
  | .comma :: _ => true
  | t :: _ => t = closing
  | [] => false

mutual

/-- Reads a node. Collections by indentation begin only where `block` says so, and lists in the column
of the record around them only where `same` does. -/
def read (handles : List Handle) (block same : Bool) : Nat → List Token → Option (Node × List Token)
  | 0, _ => none
  | _ + 1, .alias name :: ts => some (.alias name, ts)
  | fuel + 1, ts =>
    let (anchor, written, ts) := properties ts
    let tag := written.bind (·.resolve? handles)
    if written.isSome && tag.isNone then none
    else
      match ts with
      | .text isPlain s :: ts => some (.text anchor tag isPlain s, ts)
      | .openList :: ts => (flowItems handles true fuel ts).map fun (ns, ts) => (.list anchor ns, ts)
      | .openRecord :: ts => (flowPairs handles true fuel ts).map fun (ps, ts) => (.record anchor ps, ts)
      | ts =>
        if same && ts.head? == some .item then
          (sameItems handles fuel ts).map fun (ns, ts) => (.list anchor ns, ts)
        else if block && ts.head? == some .itemsStart then
          (items handles fuel ts.tail).map fun (ns, ts) => (.list anchor ns, ts)
        else if block && ts.head? == some .pairsStart then
          (pairs handles fuel ts.tail).map fun (ps, ts) => (.record anchor ps, ts)
        else if anchor.isSome || tag.isSome then some (.text anchor tag true "", ts)
        else none

/-- Reads the items of a list by indentation, and its end. -/
def items (handles : List Handle) : Nat → List Token → Option (List Node × List Token)
  | fuel + 1, .item :: ts =>
    (if endsItem ts then some (empty, ts) else read handles true false fuel ts).bind fun (n, ts) =>
      (items handles fuel ts).map fun (ns, ts) => (n :: ns, ts)
  | _, .dedent :: ts => some ([], ts)
  | _, _ => none

/-- Reads the items of a list in the column of the record around it. -/
def sameItems (handles : List Handle) : Nat → List Token → Option (List Node × List Token)
  | 0, _ => none
  | fuel + 1, .item :: ts =>
    (if endsItem ts || endsPair ts then some (empty, ts) else read handles true false fuel ts).bind
      fun (n, ts) => (sameItems handles fuel ts).map fun (ns, ts) => (n :: ns, ts)
  | _ + 1, ts => some ([], ts)

/-- Reads the pairs of a record by indentation, and its end. -/
def pairs (handles : List Handle) : Nat → List Token → Option (List (Node × Node) × List Token)
  | fuel + 1, .key :: ts =>
    (if endsPair ts then some (empty, ts) else read handles true true fuel ts).bind fun (k, ts) =>
      (blockValue handles fuel ts).bind fun (v, ts) =>
        (pairs handles fuel ts).map fun (ps, ts) => ((k, v) :: ps, ts)
  | _, .dedent :: ts => some ([], ts)
  | _, _ => none

/-- Reads the value after a key of a record by indentation; there may be none. -/
def blockValue (handles : List Handle) : Nat → List Token → Option (Node × List Token)
  | 0, _ => none
  | fuel + 1, .value :: ts => if endsPair ts then some (empty, ts) else read handles true true fuel ts
  | _ + 1, ts => some (empty, ts)

/-- Reads the items of a list in brackets, and its end. A key makes an item a record of one pair; where
it is not written, the sign in its place is taken for it. -/
def flowItems (handles : List Handle) (first : Bool) : Nat → List Token → Option (List Node × List Token)
  | 0, _ => none
  | _ + 1, .closeList :: ts => some ([], ts)
  | fuel + 1, ts =>
    if !first && ts.head? != some .comma then none
    else
      match if first then ts else ts.tail with
      | .closeList :: ts => some ([], ts)
      | .key :: ts =>
        let omitted := endsFlow .closeList ts || ts.head? == some .value
        (if omitted then some (empty, ts.tail) else read handles false false fuel ts).bind
          fun (k, ts) =>
            (flowValue handles .closeList fuel ts).bind fun (v, ts) =>
              (flowItems handles false fuel ts).map fun (ns, ts) => (.record none [(k, v)] :: ns, ts)
      | ts =>
        (read handles false false fuel ts).bind fun (n, ts) =>
          (flowItems handles false fuel ts).map fun (ns, ts) => (n :: ns, ts)

/-- Reads the pairs of a record in brackets, and its end. A node without the sign of a key is a key
that has no value. -/
def flowPairs (handles : List Handle) (first : Bool) :
    Nat → List Token → Option (List (Node × Node) × List Token)
  | 0, _ => none
  | _ + 1, .closeRecord :: ts => some ([], ts)
  | fuel + 1, ts =>
    if !first && ts.head? != some .comma then none
    else
      match if first then ts else ts.tail with
      | .closeRecord :: ts => some ([], ts)
      | .key :: ts =>
        let omitted := endsFlow .closeRecord ts || ts.head? == some .value
        (if omitted then some (empty, ts) else read handles false false fuel ts).bind fun (k, ts) =>
          (flowValue handles .closeRecord fuel ts).bind fun (v, ts) =>
            (flowPairs handles false fuel ts).map fun (ps, ts) => ((k, v) :: ps, ts)
      | ts =>
        (read handles false false fuel ts).bind fun (k, ts) =>
          (flowPairs handles false fuel ts).map fun (ps, ts) => ((k, empty) :: ps, ts)

/-- Reads the value after a key in brackets; there may be none. -/
def flowValue (handles : List Handle) (closing : Token) : Nat → List Token → Option (Node × List Token)
  | 0, _ => none
  | fuel + 1, .value :: ts =>
    if endsFlow closing ts then some (empty, ts) else read handles false false fuel ts
  | _ + 1, ts => some (empty, ts)

end

/-! ### Documents -/

/-- Reads the directives of a document: its handles, and what follows. A version is given at most
once, and has to be 1.1 or 1.2; no handle is given twice. -/
def directives? (versioned : Bool) (handles : List Handle) :
    List Token → Option (List Handle × List Token)
  | .directive (.version major minor) :: ts =>
    if versioned || major != 1 || !(minor == 1 || minor == 2) then none else directives? true handles ts
  | .directive (.handle h) :: ts =>
    if handles.any (·.name == h.name) then none else directives? versioned (handles ++ [h]) ts
  | ts => some (handles ++ commonHandles, ts)

/-- Whether a document has no content here. -/
def endsDocument : List Token → Bool
  | [] | .directive _ :: _ | .documentStart :: _ | .documentEnd :: _ => true
  | _ => false

/-- Reads the one document that the tokens make up. Without directives it needs no mark at its start.
Each step of reading takes a token or follows one that did. -/
def ofTokens? (ts : List Token) : Option Node :=
  let fuel := 2 * ts.length + 2
  let found := match ts with
    | [] => none
    | .directive _ :: _ | .documentStart :: _ =>
      match directives? false [] ts with
      | some (handles, .documentStart :: ts) =>
        if endsDocument ts then some (empty, ts) else read handles true false fuel ts
      | _ => none
    | ts => read commonHandles true false fuel ts
  match found with
  | some (n, rest) => if rest.all (· == .documentEnd) then some n else none
  | none => none

end Node

end CodeSweep.Data.Yaml
