import CodeSweep.Edit
import CodeSweep.Fault
import CodeSweep.Language

/-!
# Parsing and queries

Grammars and the query language belong to a tree engine outside this library. Here it is three
functions: whether a text can be parsed under a language, which captures a query has there, and which
nodes it captures in a text. All else (which captures count, what a node's text is, how a node is
replaced) is decided here.
-/

namespace CodeSweep

/-- The extent and kind of a node of a syntax tree. Offsets count bytes. -/
structure NodeShape where
  kind : String
  start : Nat
  stop : Nat
  named : Bool
deriving DecidableEq, Inhabited

/-- A node that a query captured, with the nodes around it, nearest first. -/
structure Capture where
  name : String
  node : NodeShape
  ancestors : List NodeShape := []
deriving DecidableEq, Inhabited

/-- A tree engine. -/
structure Engine where
  /-- Whether a text can be parsed under a language, or what is wrong with it. -/
  parse : Language → String → Except String Unit := fun _ _ => .ok ()
  /-- The captures of a query under a language, or what is wrong with it. -/
  compile : Language → String → Except String (List String)
  /-- All captures of all matches of a query in a text, in match order. -/
  captures : Language → String → String → List Capture

/-- A text under the language it is parsed in. -/
structure Source where
  language : Language
  text : String
deriving DecidableEq, Inhabited

/-- What a node covers of a source: its text, and the row and column of its first byte, both from zero.
Columns count bytes. -/
structure Passage where
  shape : NodeShape
  text : String
  row : Nat
  column : Nat
deriving DecidableEq, Inhabited

/-- A node of a source, with the nodes around it, nearest first. -/
structure Node extends Passage where
  ancestors : List Passage := []
deriving DecidableEq, Inhabited

/-- Which nodes to look for: those a query captures, under one capture name or under any. The
pattern names the parts of a node's text for use in its replacement. -/
structure Rule where
  query : String
  capture : Option String := none
  pattern : Option String := none
deriving DecidableEq, Inhabited

namespace Rule

/-- A capture's name without the sign that introduces it in a query. -/
def captureName (name : String) : String := String.ofList (name.toList.dropWhile (· == '@'))

/-- A rule whose capture may be written with the sign that introduces it in a query. -/
def make (query : String) (capture pattern : Option String) : Rule :=
  { query, capture := capture.map captureName, pattern }

end Rule

namespace Source

/-- A text parsed under a language. -/
def ofText (engine : Engine) (language : Language) (text : String) : Except Fault Source :=
  match engine.parse language text with
  | .error reason => .error (.parse language.name reason)
  | .ok () => .ok { language, text }

/-- A text parsed under the language of that name. -/
def parse (engine : Engine) (language text : String) : Except Fault Source :=
  match Language.lookup? language with
  | some l => ofText engine l text
  | none => .error (.unsupportedLanguage language)

/-- New text parsed under the language of the source. -/
def reparse (engine : Engine) (s : Source) (text : String) : Except Fault Source :=
  ofText engine s.language text

/-- The text of a node; nothing if its extent does not fall on characters. -/
def textOf (s : Source) (n : NodeShape) : String :=
  String.ofList ((Text.between? n.start n.stop s.text.toList).getD [])

/-- What a node covers of the source. -/
def passage (s : Source) (n : NodeShape) : Passage :=
  let (row, column) := Text.position n.start s.text.toList
  { shape := n, text := s.textOf n, row, column }

/-- A captured node of the source. -/
def node (s : Source) (c : Capture) : Node :=
  { s.passage c.node with ancestors := c.ancestors.map s.passage }

/-- The nodes a rule matches, in match order. -/
def find (engine : Engine) (s : Source) (rule : Rule) : Except Fault (List Node) :=
  match engine.compile s.language rule.query with
  | .error text => .error (.query text)
  | .ok names =>
    let found := engine.captures s.language rule.query s.text
    match rule.capture with
    | none => .ok (found.map s.node)
    | some name =>
      if names.contains name then .ok ((found.filter (·.name == name)).map s.node)
      else .error (.config (.unknownCapture name rule.query))

end Source

namespace Node

/-- The edit that puts `text` in the node's place. -/
def replace (n : Node) (text : String) : Edit := Edit.ofRange n.shape.start n.shape.stop text

/-- The first of nodes, each inside the next, that satisfies the condition. -/
def climbFrom? (wanted : Node → Bool) : List Passage → Option Node
  | [] => none
  | nearest :: rest =>
    let around : Node := { nearest with ancestors := rest }
    if wanted around then some around else climbFrom? wanted rest

/-- The nearest node around this one that satisfies the condition. -/
def climb? (n : Node) (wanted : Node → Bool) : Option Node := climbFrom? wanted n.ancestors

end Node

/-- A tree engine that knows only what it was told: compiled queries, and captures found. It parses
any text. -/
def Engine.ofTable (queries : List ((String × String) × Except String (List String)))
    (found : List ((String × String × String) × List Capture)) : Engine where
  compile l query := (queries.lookup (l.name, query)).getD (.error "unknown query")
  captures l query text := (found.lookup (l.name, query, text)).getD []

end CodeSweep
