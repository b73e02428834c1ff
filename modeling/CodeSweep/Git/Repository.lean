import CodeSweep.Git.Branch
import CodeSweep.Hosting
import CodeSweep.Ordered

/-!
# Repositories

A repository is known by the address of its remote and lives in a directory named after it. All
operations on it run `git` in that directory, and some ask the hosting platform for the default
branch. Which branch is checked out is remembered between operations until something may have moved
it.
-/

namespace CodeSweep

/-- A repository to work on, with the tags codemods select it by. -/
structure RepositorySpec where
  address : String
  /-- In order and each once. -/
  tags : List String := []
deriving DecidableEq, Inhabited

/-- A working copy: where a repository lives. -/
structure Repository where
  name : String
  address : String
  path : Path
  tags : List String
deriving DecidableEq, Inhabited

/-- A session as one repository sees it: with the branch it knows to be checked out. -/
structure Desk (σ : Type) where
  current : Option Branch
  session : Session σ

/-- An operation on a repository. It may fail, and what was done before stays done. -/
abbrev Git (σ : Type) := EStateM GitFault (Desk σ)

namespace Git

variable {σ α : Type}

/-- An operation on the session alone. -/
def lift (x : StateM (Session σ) α) : Git σ α := fun d =>
  let (a, session) := x d.session
  .ok a { d with session }

/-- The same operation, with its failure seen as `f` says. -/
def mapFault (f : GitFault → GitFault) (x : Git σ α) : Git σ α := fun d =>
  match x d with
  | .ok a d => .ok a d
  | .error fault d => .error (f fault) d

/-- The same operation, with its failure as a value. -/
def attempt (x : Git σ α) : Git σ (Except GitFault α) := fun d =>
  match x d with
  | .ok a d => .ok (.ok a) d
  | .error fault d => .ok (.error fault) d

/-- Tells an event. -/
def tell (event : Event) : Git σ Unit := lift (Session.tell event)

/-- Remembers which branch is checked out, or that it is not known. -/
def remember (branch : Option Branch) : Git σ Unit := modify fun d => { d with current := branch }

end Git

namespace Repository

/-- The name of a repository: the last name in its address, without an extension. -/
def nameOf? (address : String) : Option String :=
  let trimmed := Text.dropTrailing (· == '/') address.toList
  let last := ((Text.pieces '/' trimmed).getLast?).getD []
  let stem := ((Text.splitLast? '.' last).map (·.1)).getD last
  if stem.isEmpty then none else some (String.ofList stem)

/-- The repository at an address, living in a directory of its name below `cwd`. -/
def ofAddress? (address : String) (cwd : Path) (tags : List String) : Option Repository :=
  (nameOf? address).map fun name =>
    { name, address, path := cwd.child name, tags := Ordered.names tags }

variable {σ : Type}

/-- A failure of this repository. -/
def fault (r : Repository) (failure : GitFailure) : GitFault := { failure, address := r.address }

/-- A failure of this repository that another one caused. -/
def because (r : Repository) (failure : GitFailure) (cause : GitFault) : GitFault :=
  { failure, address := r.address, cause := some cause.toFault }

/-- The failure of a git command. -/
def commandFault (r : Repository) (args : List String) (reason : String) : GitFault :=
  r.fault (.command ("git " ++ " ".intercalate args) reason)

/-- Runs git, and fails only when it cannot be started. -/
def gitOutput (w : World σ) (r : Repository) (args : List String) : Git σ Output := do
  match ← Git.lift (w.call { cwd := r.path, program := "git", args }) with
  | .ok output => return output
  | .error cause => throw (r.commandFault args cause.message)

/-- Runs git, and fails also when it did not succeed. -/
def git (w : World σ) (r : Repository) (args : List String) : Git σ Output := do
  let output ← r.gitOutput w args
  if output.success then return output else throw (r.commandFault args output.message)

/-- The directory that the repository is cloned in. -/
def home (r : Repository) : Path := r.path.parent.getD ⟨"."⟩

/-- The command that clones the repository. -/
def cloneCommand (r : Repository) : Command :=
  { cwd := r.home, program := "git", args := ["clone", r.address, r.name] }

/-- The failure to clone, and what caused it. -/
def cloneFault (r : Repository) (cause : Fault) : GitFault :=
  { failure := .clone, address := r.address, cause := some cause }

/-- Clones the repository into its directory, unless something is there already. -/
def clone (w : World σ) (r : Repository) : Git σ Unit := do
  if (← get).session.disk.exists? r.path then
    Git.tell (.alreadyCloned r.address)
  else
    match ← Git.lift (Session.makeDirs r.home) with
    | .error cause => throw (r.cloneFault (.io cause))
    | .ok () =>
      match ← Git.lift (w.call r.cloneCommand) with
      | .error cause => throw (r.cloneFault (.io cause))
      | .ok output =>
        if output.success then return ()
        else throw (r.cloneFault (r.commandFault ["clone"] output.message).toFault)

/-- The local branches. -/
def branches (w : World σ) (r : Repository) : Git σ (List Branch) := do
  let output ← r.git w ["branch"]
  return Branch.readLocal output.stdout

/-- The branches on the remote. -/
def remoteBranches (w : World σ) (r : Repository) : Git σ (List Branch) := do
  let output ← r.git w ["ls-remote", "--heads"]
  return Branch.readRemote output.stdout

/-- The first remote in a listing of remotes. -/
def firstRemote? (stdout : String) : Option String :=
  match Text.lines stdout with
  | [] => none
  | line :: _ =>
    let name := Text.trim line
    if name.isEmpty then none else some name

/-- The first configured remote. -/
def remoteName (w : World σ) (r : Repository) : Git σ (Option String) := do
  let output ← r.git w ["remote"]
  return firstRemote? output.stdout

/-- The branch that is checked out: the remembered one, else as git lists it. -/
def selectedBranch (w : World σ) (r : Repository) : Git σ (Option Branch) := do
  match (← get).current with
  | some branch => return some branch
  | none =>
    let selected := (← r.branches w).find? (·.selected)
    Git.remember selected
    return selected

/-- The name of the default branch, as the hosting platform has it. -/
def mainBranchName (w : World σ) (r : Repository) : Git σ String := do
  match ← Git.lift (Hosting.defaultBranch w r.address r.path) with
  | .ok name => return name
  | .error cause => throw { failure := .mainBranch, address := r.address, cause := some cause }

/-- The local branch of the default branch's name. -/
def mainBranch (w : World σ) (r : Repository) : Git σ Branch := do
  let name ← r.mainBranchName w
  match (← r.branches w).find? (·.name == name) with
  | some branch => return branch
  | none => throw (r.fault .mainBranch)

/-- The command that moves to a local branch, or that makes it where the working copy is. -/
def moveArgs (name : String) (existing : Bool) : List String :=
  if existing then ["checkout", name] else ["checkout", "-b", name]

/-- Moves to the local branch of that name, or to a new one. `fresh` asks for a new one in any case. -/
def moveTo (w : World σ) (r : Repository) (name : String) (fresh : Bool) : Git σ Branch := do
  let failed := r.because (.checkout name)
  let listed := (← (r.branches w).mapFault failed).any (·.name == name)
  match ← (r.git w (moveArgs name (listed && !fresh))).attempt with
  | .ok _ =>
    let branch : Branch := { name, selected := true }
    Git.remember (some branch)
    return branch
  | .error cause =>
    Git.remember none
    throw (failed cause)

/-- Checks out a branch: nothing to do when it is checked out, else the local branch of that name, else
a new one from where the working copy is. `fresh` asks for a new branch in any case. -/
def checkout (w : World σ) (r : Repository) (name : String) (fresh : Bool) : Git σ Branch := do
  if fresh then r.moveTo w name fresh
  else
    match ← (r.selectedBranch w).mapFault (r.because (.checkout name)) with
    | some branch => if branch.name = name then return branch else r.moveTo w name fresh
    | none => r.moveTo w name fresh

/-- Deletes a local branch, merged or not. -/
def deleteBranch (w : World σ) (r : Repository) (name : String) : Git σ Unit := do
  Git.remember none
  let _ ← r.git w ["branch", "-D", name]

/-- Throws away all local changes and fetches. -/
def resetAndFetch (w : World σ) (r : Repository) : Git σ Unit := do
  let _ ← r.git w ["add", "."]
  let _ ← r.git w ["reset", "--hard"]
  let _ ← r.git w ["fetch"]

/-- Rebases onto `base`, and gives up on the rebase when it fails. -/
def tryRebase (w : World σ) (r : Repository) (base : String) : Git σ Bool := do
  let output ← r.gitOutput w ["rebase", base]
  if output.success then return true
  else
    Git.tell (.rebaseFailed r.address base output.message)
    let _ ← (r.gitOutput w ["rebase", "--abort"]).attempt
    return false

/-- Said when the work would go onto the default branch. -/
def onMainBranch : String := "checked out branch is main branch"

/-- Makes the working branch anew from `base`, and makes sure of where that led. -/
def recreate (w : World σ) (r : Repository) (working main base : String) : Git σ Unit := do
  if working = main then throw (r.fault (.invariant onMainBranch))
  let _ ← (r.git w ["checkout", "--detach", base]).mapFault (r.because (.checkout base))
  let _ ← (r.deleteBranch w working).attempt
  let _ ← (r.git w ["checkout", "-b", working, base]).mapFault (r.because (.checkout working))
  Git.remember none
  match ← r.selectedBranch w with
  | none => throw (r.fault (.invariant "failed to find current branch"))
  | some current => if current.name = main then throw (r.fault (.invariant onMainBranch))

/-- What has to be known to bring a working branch up to date: the default branch, the remote, and
whether the remote has the working branch. -/
structure Survey where
  main : String
  remote : String
  pushed : Bool
deriving DecidableEq, Inhabited

/-- The default branch of the remote. -/
def Survey.base (known : Survey) : String := s!"{known.remote}/{known.main}"

/-- Finds out what has to be known. -/
def survey (w : World σ) (r : Repository) (working : String) : Git σ Survey := do
  let failed := r.because .rebase
  let main ← (r.mainBranchName w).mapFault failed
  match ← (r.remoteName w).mapFault failed with
  | none => throw (r.fault .rebase)
  | some remote =>
    let pushed := (← r.remoteBranches w).any (·.name == working)
    return { main, remote, pushed }

/-- Brings the working branch up to the default branch of the remote: by a rebase, or, when that fails
or the branch was never pushed, by making it anew. -/
def update (w : World σ) (r : Repository) (working : String) : Git σ Unit := do
  let known ← r.survey w working
  let _ ← r.checkout w working false
  let rebased ← r.tryRebase w known.base
  if rebased && known.pushed then return ()
  else
    Git.tell (.recreatingBranch r.address working known.base rebased known.pushed)
    r.recreate w working known.main known.base

/-- Throws away local changes, fetches and brings the working branch up to date. -/
def reset (w : World σ) (r : Repository) (working : String) : Git σ Unit := do
  r.resetAndFetch w
  r.update w working

/-- All that is done before files are transformed: the working branch is checked out, cleaned and
brought up to date. -/
def prepare (w : World σ) (r : Repository) (working : String) : Git σ Unit := do
  let _ ← r.checkout w working false
  r.reset w working

/-- What git says when a commit would be empty. -/
def nothingToCommit : String := "nothing to commit"

/-- Commits everything. Having nothing to commit is fine. -/
def commit (w : World σ) (r : Repository) (message : String) : Git σ Unit := do
  let failed := r.because .commit
  let _ ← (r.git w ["add", "."]).mapFault failed
  let args := ["commit", "-m", message, "--no-verify"]
  let output ← (r.gitOutput w args).mapFault failed
  if output.success || Text.holds output.stdout nothingToCommit ||
      Text.holds output.stderr nothingToCommit then return ()
  else throw (failed (r.commandFault args output.message))

/-- Pushes the branch that is checked out, over whatever the remote has. The default branch is never
pushed. -/
def push (w : World σ) (r : Repository) : Git σ Unit := do
  let remote ← (r.remoteName w).mapFault (r.because (.push "failed to find remote name"))
  let current ← (r.selectedBranch w).mapFault (r.because (.push "failed to find current branch"))
  match remote, current with
  | some remote, some current =>
    let main ← r.mainBranchName w
    if current.name = main then throw (r.fault (.push "can't push to main branch"))
    let _ ← (r.git w ["add", "."]).mapFault (r.because (.push "failed to stage changes"))
    let _ ← (r.git w ["push", "--force", "--no-verify", "--set-upstream", remote, current.name]).mapFault
      (r.because (.push "push rejected"))
  | _, _ => throw (r.fault (.push "failed to find remote name"))

/-- Opens a pull request. -/
def openRequest (w : World σ) (r : Repository) (request : PullRequest) :
    StateM (Session σ) (Except Fault String) :=
  Hosting.openRequest w r.address r.path request

end Repository

/-- A working copy together with the branch it is known to be on. -/
structure Checkout where
  repository : Repository
  current : Option Branch := none
deriving DecidableEq, Inhabited

namespace Checkout

variable {σ α : Type}

/-- Performs an operation on the working copy. -/
def perform (c : Checkout) (op : Repository → Git σ α) :
    StateM (Session σ) (Except GitFault α × Checkout) := fun session =>
  match op c.repository { current := c.current, session } with
  | .ok a d => ((.ok a, { c with current := d.current }), d.session)
  | .error fault d => ((.error fault, { c with current := d.current }), d.session)

end Checkout

end CodeSweep
