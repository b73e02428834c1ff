import CodeSweep.Data

/-!
# Decoding

Readers that give data its meaning. A reader looks at one layer of the data and leaves the rest to
others; it follows references, of which a document allows a limited number. What a reader does not
look at may be anything.
-/

namespace CodeSweep

/-- Reading from a document. The state is the number of references that may still be followed. -/
abbrev Decode := ReaderT (List (Nat × Data)) (StateT Nat Option)

/-- Reads a whole document. -/
def Document.decode? {α : Type} (doc : Document) (read : Data → Decode α) : Option α :=
  (((read doc.root).run doc.numbered).run doc.limit).map (·.1)

namespace Data

/-- The data itself, after a reference if it is one. -/
def follow : Data → Decode Data
  | .alias n => fun numbered left =>
    match numbered.lookup n, left with
    | some d, left + 1 => some (d, left)
    | _, _ => none
  | d => pure d

/-- The data as text. -/
def text (d : Data) : Decode String := do
  match (← d.follow).bare with
  | .quoted s | .plain s => return s
  | _ => failure

/-- The data as a list. No text at all is the empty list. -/
def list (d : Data) : Decode (List Data) := do
  match (← d.follow).bare with
  | .array items | .sequence items => return items
  | .plain "" => return []
  | _ => failure

/-- The values of a record's fields by name. -/
abbrev Fields := String → Option Data

/-- Whether one of the names occurs more than once. -/
def repeats (names : List String) (fields : List (String × Data)) : Bool :=
  names.any fun name => fields.countP (·.1 == name) > 1

/-- The data as a record with the named fields. A field that is given twice is refused, one that is
not named is ignored. -/
def fields (names : List String) (d : Data) : Decode Fields := do
  match (← d.follow).bare with
  | .record pairs =>
    let named ← pairs.mapM fun (key, value) => return (← key.text, value)
    if repeats names named then failure
    else return fun name => named.lookup name
  | .array items =>
    if items.length ≤ names.length then return fun name => (names.zip items).lookup name
    else failure
  | .plain "" => return fun _ => none
  | _ => failure

/-- A field that has to be there. -/
def required {α : Type} (read : Data → Decode α) (fields : Fields) (name : String) : Decode α :=
  match fields name with
  | none => failure
  | some d => read d

/-- A field that has a value of its own when it is not there. -/
def defaulted {α : Type} (missing : α) (read : Data → Decode α) (fields : Fields) (name : String) :
    Decode α :=
  match fields name with
  | none => return missing
  | some d => read d

/-- Data that may say there is nothing. -/
def optional {α : Type} (read : Data → Decode α) (d : Data) : Decode (Option α) := do
  let d ← d.follow
  match d.isSome? with
  | some true => return some (← read d)
  | some false => return none
  | none => failure

/-- The data as a list of things. -/
def listOf {α : Type} (read : Data → Decode α) (d : Data) : Decode (List α) := do
  (← d.list).mapM read

/-- The data as one of several names: text, or a kind of the document's own with nothing more to it. -/
def name (d : Data) : Decode String := do
  match ← d.follow with
  | .record [(key, .null)] => key.text
  | .tagged tag d =>
    match tag.ownName?, d with
    | some name, .plain s => if s.isEmpty || isNull s then return name else failure
    | some _, _ => failure
    | none, d => d.text
  | d => d.text

end Data

end CodeSweep
