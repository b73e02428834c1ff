import CodeSweep.Codemod.Run
import CodeSweep.Git.Prepare

/-!
# Publishing results

After a codemod has run, each repository with a changed file is committed, pushed and given a pull
request, in that order and only as far as it goes. That a pull request cannot be opened is taken to
mean that one is open already.
-/

namespace CodeSweep

/-- A codemod together with how it is published and which repositories it is for. -/
structure Campaign where
  codemod : Codemod
  /-- Repositories that share a tag are selected; no tags select all. In order and each once. -/
  tags : List String := []
  branch : String
  message : String

namespace Campaign

/-- The codemod with the branch and the commit message that its name gives. -/
def ofCodemod (codemod : Codemod) : Campaign :=
  { codemod, branch := s!"codemods/{codemod.name}", message := s!"codemod: {codemod.name}" }

/-- Whether the codemod is for a repository. -/
def appliesTo (c : Campaign) (spec : RepositorySpec) : Bool :=
  c.tags.isEmpty || c.tags.any spec.tags.contains

end Campaign

/-- What became of publishing one repository. -/
inductive PublishOutcome where
  | opened (url : String)
  | alreadyOpen
  | commitFailed (fault : GitFault)
  | pushFailed (fault : GitFault)
deriving Inhabited

/-- Whether there is a pull request for the changes now. -/
def PublishOutcome.isPublished : PublishOutcome → Bool
  | .opened _ | .alreadyOpen => true
  | _ => false

/-- What became of publishing the repository at an address. -/
structure Publication where
  address : String
  outcome : PublishOutcome
deriving Inhabited

namespace Campaign

variable {σ : Type}

/-- The pull request that a campaign asks for. -/
def request (c : Campaign) : PullRequest := { title := c.message, head := c.branch }

/-- Commits, pushes and asks for a pull request, as far as it goes. -/
def publishOne (w : World σ) (c : Campaign) (copy : Checkout) :
    StateM (Session σ) (PublishOutcome × Checkout) := do
  let (committed, copy) ← copy.perform (·.commit w c.message)
  match committed with
  | .error fault =>
    Session.tell (.commitFailed fault)
    return (.commitFailed fault, copy)
  | .ok () =>
    let (pushed, copy) ← copy.perform (·.push w)
    match pushed with
    | .error fault =>
      Session.tell (.pushFailed fault)
      return (.pushFailed fault, copy)
    | .ok () =>
      match ← copy.repository.openRequest w c.request with
      | .ok url =>
        Session.tell (.pullRequestCreated copy.repository.address url)
        return (.opened url, copy)
      | .error _ =>
        Session.tell (.pullRequestAlreadyOpen copy.repository.address)
        return (.alreadyOpen, copy)

/-- Publishes those working copies, in order, whose directory is among `roots`. -/
def publishEach (w : World σ) (c : Campaign) (roots : List Path) :
    List Checkout → StateM (Session σ) (List Publication × List Checkout)
  | [] => pure ([], [])
  | copy :: rest => do
    if roots.any (·.same copy.repository.path) then
      let (outcome, copy) ← c.publishOne w copy
      let (publications, copies) ← c.publishEach w roots rest
      return ({ address := copy.repository.address, outcome } :: publications, copy :: copies)
    else
      let (publications, copies) ← c.publishEach w roots rest
      return (publications, copy :: copies)

/-- The directories that own changed files. -/
def changedRoots (results : List FileResult) : List Path :=
  ((Codemod.successes results).filter (·.changed)).map (·.root)

/-- Publishes the results of a codemod. When nothing changed, that is told and nothing done. -/
def publish (w : World σ) (c : Campaign) (results : List FileResult) (copies : List Checkout) :
    StateM (Session σ) (List Publication × List Checkout) := do
  let roots := changedRoots results
  if roots.isEmpty then
    Session.tell (.nothingTransformed c.codemod.name)
    return ([], copies)
  else c.publishEach w roots copies

/-- Publishes the results of several codemods, in the order given. Results of an unknown codemod end
it, and what was published before stays published. -/
def publishAll (w : World σ) (campaigns : List Campaign) :
    List (String × List FileResult) → List Checkout →
      StateM (Session σ) (Except Fault (List (String × List Publication)))
  | [], _ => pure (.ok [])
  | (name, results) :: rest, copies => do
    match campaigns.find? (·.codemod.name == name) with
    | none => return .error (.invariant s!"no codemod named '{name}' to publish results for")
    | some c =>
      let (publications, copies) ← c.publish w results copies
      match ← publishAll w campaigns rest copies with
      | .error fault => return .error fault
      | .ok later => return .ok ((name, publications) :: later)

end Campaign

end CodeSweep
