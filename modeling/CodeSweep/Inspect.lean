import CodeSweep.Sweep
import CodeSweep.Text.Quoted

/-!
# Descriptions

Every value of interest can be told in one line, for logs and for looking into a run. Texts stand
between quotes, records show their fields by name, and two dots stand for what is not shown.
-/

namespace CodeSweep

namespace Inspect

/-- The part between braces; nothing inside shows as nothing. -/
def braced (inside : List String) : String :=
  if inside.isEmpty then "" else " \x7b " ++ ", ".intercalate inside ++ " \x7d"

/-- Fields by name. -/
def fields (shown : List (String × String)) : List String :=
  shown.map fun (name, value) => s!"{name}: {value}"

/-- A record that shows all its fields. -/
def record (name : String) (shown : List (String × String)) : String := name ++ braced (fields shown)

/-- A record that has more than it shows. -/
def glimpse (name : String) (shown : List (String × String)) : String :=
  name ++ braced (fields shown ++ [".."])

/-- Values in order. -/
def list (items : List String) : String := "[" ++ ", ".intercalate items ++ "]"

/-- A set of texts. -/
def names (items : List String) : String :=
  "\x7b" ++ ", ".intercalate (items.map Text.quoted) ++ "\x7d"

/-- A value that may be missing. -/
def maybe : Option String → String
  | none => "None"
  | some s => s!"Some({s})"

end Inspect

open Inspect

/-- A path in quotes. -/
def Path.describe (p : Path) : String := Text.quoted p.text

/-- The source's language and size. -/
def Source.describe (s : Source) : String :=
  record "SyntaxTree"
    [("language", Text.quoted s.language.name), ("len", toString s.text.utf8ByteSize)]

/-- The node's kind, extent and text. -/
def Node.describe (n : Node) : String :=
  record "Node"
    [("kind", Text.quoted n.shape.kind), ("range", s!"{n.shape.start}..{n.shape.stop}"),
      ("text", Text.quoted n.text)]

/-- The rule's parts. -/
def Rule.describe (r : Rule) : String :=
  record "Rule"
    [("query", Text.quoted r.query), ("capture", maybe (r.capture.map Text.quoted)),
      ("pattern", maybe (r.pattern.map Text.quoted))]

/-- The text of a literal transformer. -/
def Transformer.describe : Transformer → String
  | .literal text => s!"Literal({Text.quoted text})"
  | .byNode _ => "Function(..)"

/-- The stage's rule and transformer. -/
def Stage.describe (st : Stage) : String :=
  record "FindAndReplaceConfig"
    [("rule", st.rule.describe), ("transformer", st.transformer.describe)]

/-- The draft's present state and history. -/
def Draft.describe (d : Draft) : String :=
  record "Modifications"
    [("tree", d.source.describe),
      ("report", record "ModificationsReport" [("changes_applied", toString d.changes)]),
      ("language", Text.quoted d.language), ("filename", maybe (d.filename.map Path.describe)),
      ("history", list (d.history.map Source.describe))]

/-- The codemod's name and languages, and what hooks it has. -/
def Codemod.describe (c : Codemod) : String :=
  record "Codemod"
    [("name", Text.quoted c.name), ("languages", names c.languages),
      ("post_transform", toString c.watched), ("target_filtering", toString c.accepts?.isSome)]

/-- The campaign's codemod and how it is published. -/
def Campaign.describe (c : Campaign) : String :=
  record "RunnerCodemod"
    [("codemod", c.codemod.describe), ("tags", names c.tags),
      ("working_branch", Text.quoted c.branch), ("commit_message", Text.quoted c.message)]

/-- Which hooks there are. -/
def Hooks.describe (h : Hooks) : String :=
  record "RunCodemodHooks"
    [("target_filtering", toString h.accepts?.isSome), ("pre_codemod_run", toString h.before?.isSome),
      ("post_transform", toString h.polish?.isSome)]

/-- The options of a run. -/
def RunOptions.describe (o : RunOptions) : String :=
  glimpse "RunCodemodOptions"
    [("hooks", o.hooks.describe), ("log", toString o.log), ("dry", toString o.dry),
      ("root_paths", list (o.rootPaths.map Path.describe))]

/-- The branch's name and whether it is checked out. -/
def Branch.describe (b : Branch) : String :=
  record "Branch" [("name", Text.quoted b.name), ("is_selected", toString b.selected)]

/-- What a repository works with, of which nothing shows. -/
def Repository.contextLine : String := glimpse "GitContext" []

/-- The working copy and the branch it knows to be checked out. -/
def Checkout.describe (c : Checkout) : String :=
  record "Repository"
    [("name", Text.quoted c.repository.name), ("address", Text.quoted c.repository.address),
      ("path", c.repository.path.describe), ("tags", names c.repository.tags),
      ("context", Repository.contextLine), ("current_branch", maybe (c.current.map Branch.describe))]

/-- The repository's address and tags. -/
def RepositorySpec.describe (r : RepositorySpec) : String :=
  record "RepositoryToClone" [("address", Text.quoted r.address), ("tags", names r.tags)]

/-- Where and over what the sweep goes. -/
def Sweep.describe (s : Sweep) : String :=
  glimpse "CodemodRunner"
    [("workspace", s.workspace.describe),
      ("repositories", list (s.repositories.map RepositorySpec.describe)), ("dry", toString s.dry)]

/-- The kind of hosting, of which nothing else shows. -/
def Hosting.describe {σ : Type} : Hosting σ → String
  | .gh => glimpse "GhCli" []
  | .service .. => glimpse "GitHubApi" []

end CodeSweep
