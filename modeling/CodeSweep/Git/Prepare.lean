import CodeSweep.Git.Repository

/-!
# Preparing repositories

All repositories of a run are cloned, then all of them are brought onto the working branch. One that
fails is told of and left out.
-/

namespace CodeSweep

namespace Repository

/-- The first repository of each name. `taken` are the names seen before. -/
def distinct (taken : List String) : List Repository → List Repository
  | [] => []
  | r :: rest =>
    if taken.contains r.name then distinct taken rest else r :: distinct (r.name :: taken) rest

/-- The repositories at some addresses, each living below `location` in a directory of its own. An
address that gives no name is left out. -/
def ofSpecs (specs : List RepositorySpec) (location : Path) : List Repository :=
  distinct [] (specs.filterMap fun spec => ofAddress? spec.address location spec.tags)

end Repository

namespace Checkout

variable {σ : Type}

/-- Performs an operation on each working copy and keeps those for which it succeeds; the others are
told of. -/
def keepAll (op : Repository → Git σ Unit) : List Checkout → StateM (Session σ) (List Checkout)
  | [] => pure []
  | c :: rest => do
    let (outcome, c) ← c.perform op
    match outcome with
    | .ok () => return c :: (← keepAll op rest)
    | .error fault =>
      Session.tell (.repositoryFailed fault)
      keepAll op rest

/-- Clones repositories into a directory, each name once. -/
def cloneAll (w : World σ) (specs : List RepositorySpec) (location : Path) :
    StateM (Session σ) (Except Fault (List Checkout)) := do
  match ← Session.makeDirs location with
  | .error cause => return .error (.io cause)
  | .ok () =>
    let copies := (Repository.ofSpecs specs location).map fun r => { repository := r : Checkout }
    return .ok (← keepAll (·.clone w) copies)

/-- Brings working copies onto the working branch. -/
def prepareAll (w : World σ) (copies : List Checkout) (working : String) :
    StateM (Session σ) (List Checkout) :=
  keepAll (·.prepare w working) copies

end Checkout

end CodeSweep
