import CodeSweep.Engine
import CodeSweep.Template.Match

/-!
# Stages of find and replace

A stage finds nodes by a rule and asks a transformer what to put in their place. Replacement text
may use the placeholders of the rule's pattern; text equal to what stands there already makes no
edit. Stages run one after another, each on the text the one before it left, parsed anew.
-/

namespace CodeSweep

/-- What a transformer gives for a node: text to put in its place, or an edit of its own. -/
inductive Replacement where
  | text (text : String)
  | edit (edit : Edit)
deriving DecidableEq, Inhabited

/-- What to put in the place of a matched node: the same text everywhere, or as a function says. -/
inductive Transformer where
  | literal (text : String)
  | byNode (give : Node → Rule → List Replacement)

/-- The replacements for a node. -/
def Transformer.replacements (t : Transformer) (node : Node) (rule : Rule) : List Replacement :=
  match t with
  | .literal text => [.text text]
  | .byNode give => give node rule

/-- One stage: which nodes, and what to put there. -/
structure Stage where
  rule : Rule
  transformer : Transformer

namespace Stage

/-- The parts of a node's text that the rule's pattern names. -/
def bindings (rule : Rule) (node : Node) : Bindings :=
  match rule.pattern with
  | some pattern => (Template.ofString pattern).extract node.text.toList
  | none => []

/-- A replacement text with the variables filled in. -/
def filled (vars : Bindings) (text : String) : String :=
  if vars.isEmpty then text else String.ofList ((Template.ofString text).substitute vars)

/-- The edit that a replacement text makes at a node, unless it changes nothing. -/
def textEdit? (node : Node) (vars : Bindings) : Replacement → Option Edit
  | .text text =>
    let new := filled vars text
    if new = node.text then none else some (node.replace new)
  | .edit _ => none

/-- The edit that a replacement is. -/
def ownEdit? : Replacement → Option Edit
  | .text _ => none
  | .edit e => some e

/-- The edits at one node: those made from text first, then the transformer's own. -/
def nodeEdits (st : Stage) (node : Node) : List Edit :=
  let given := st.transformer.replacements node st.rule
  given.filterMap (textEdit? node (bindings st.rule node)) ++ given.filterMap ownEdit?

/-- The edits of one pass over a source, node by node in match order. -/
def edits (engine : Engine) (st : Stage) (source : Source) : Except Fault (List Edit) :=
  match source.find engine st.rule with
  | .error fault => .error fault
  | .ok nodes => .ok (nodes.flatMap st.nodeEdits)

/-- The text after one pass. -/
def apply (engine : Engine) (st : Stage) (source : Source) : Except Fault String :=
  (st.edits engine source).map fun edits => (Edit.commit source.text edits).text

end Stage

/-- Runs the stages in order. A stage without edits leaves the source as it is. -/
def Source.runStages (engine : Engine) (source : Source) : List Stage → Except Fault Source
  | [] => .ok source
  | st :: rest =>
    match st.edits engine source with
    | .error fault => .error fault
    | .ok [] => source.runStages engine rest
    | .ok (e :: es) =>
      match source.reparse engine (Edit.commit source.text (e :: es)).text with
      | .error fault => .error fault
      | .ok next => next.runStages engine rest

/-- A source with the record of how it got there. -/
structure Draft where
  source : Source
  changes : Nat := 0
  language : String
  filename : Option Path := none
  /-- The source after each committed batch, oldest first. -/
  history : List Source := []
deriving Inhabited

namespace Draft

/-- Starts a record. -/
def start (source : Source) (filename : Option Path) : Draft :=
  { source, language := source.language.name, filename }

/-- Whether an edit was ever applied. -/
def hasChanges (d : Draft) : Bool := d.changes > 0

/-- Commits a batch of edits and records the outcome. An empty batch is no event. -/
def commit (engine : Engine) (d : Draft) (edits : List Edit) : Except Fault Draft :=
  if edits.isEmpty then .ok d
  else
    let committed := Edit.commit d.source.text edits
    match d.source.reparse engine committed.text with
    | .error fault => .error fault
    | .ok source =>
      .ok { d with
            source
            changes := d.changes + committed.applied
            history := d.history ++ [source] }

/-- Runs the stages in order and records each. -/
def runStages (engine : Engine) (d : Draft) : List Stage → Except Fault Draft
  | [] => .ok d
  | st :: rest =>
    match st.edits engine d.source with
    | .error fault => .error fault
    | .ok edits =>
      match d.commit engine edits with
      | .error fault => .error fault
      | .ok d => d.runStages engine rest

end Draft

end CodeSweep
