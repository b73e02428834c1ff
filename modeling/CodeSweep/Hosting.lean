import CodeSweep.Data.Decode
import CodeSweep.Data.Json
import CodeSweep.Session
import CodeSweep.Text.Search

/-!
# Hosting

The platform that hosts a repository is asked for two things: the name of the default branch, and a
pull request for a pushed branch. Asking goes through the `gh` program, run in the repository's
directory, or straight to a service that knows repositories by owner and name.
-/

namespace CodeSweep

/-- A hosted repository, by its owner and its own name. -/
structure RepoSlug where
  owner : String
  repo : String
deriving DecidableEq, Inhabited

namespace RepoSlug

/-- The part of an address that names owner and repository: after the host of an address with a
scheme, after the first colon of any other. -/
def pathOf? (address : List Char) : Option (List Char) :=
  match Text.splitFirst? [':', '/', '/'] address with
  | some (_, rest) => (Text.splitFirst? ['/'] rest).map (·.2)
  | none =>
    match Text.splitFirst? [':'] address with
    | some (_, path) => some path
    | none => some address

/-- Reads owner and repository off a remote address: the last two names of its path. -/
def parse? (address : String) : Option RepoSlug :=
  let trimmed := Text.dropTrailing (· == '/') (Text.trimChars address.toList)
  let bare := (Text.dropEnding? ['.', 'g', 'i', 't'] trimmed).getD trimmed
  (pathOf? bare).bind fun path =>
    match ((Text.pieces '/' path).filter (!·.isEmpty)).reverse with
    | repo :: owner :: _ => some { owner := String.ofList owner, repo := String.ofList repo }
    | _ => none

end RepoSlug

namespace Hosting

variable {σ : Type}

/-- What `gh` printed, or why there is nothing to read. -/
def printed (args : List String) : Reply → Except Fault String
  | .error cause => .error (.io cause)
  | .ok output =>
    if output.success then .ok output.stdout
    else
      let line := " ".intercalate args
      .error (.hosting s!"gh {line} failed: {output.message}")

/-- Runs `gh` in a directory and gives what it printed. -/
def askGh (w : World σ) (path : Path) (args : List String) :
    StateM (Session σ) (Except Fault String) := do
  return printed args (← w.call { cwd := path, program := "gh", args })

/-- Reads the default branch out of what is known about a repository. -/
def branchOf (view : Data) : Decode String := do
  let about ← view.fields ["defaultBranchRef"]
  let ref ← Data.required (Data.fields ["name"]) about "defaultBranchRef"
  Data.required Data.text ref "name"

/-- The default branch in what `gh` printed. -/
def branchIn? (stdout : String) : Option String := (Data.Json.read? stdout).bind (·.decode? branchOf)

/-- The default branch, from what `gh` printed if it printed anything. -/
def branchFrom : Except Fault String → Except Fault String
  | .error fault => .error fault
  | .ok stdout =>
    match branchIn? stdout with
    | some name => .ok name
    | none => .error .json

/-- The arguments with which `gh` shows the default branch. -/
def viewArgs : List String := ["repo", "view", "--json", "defaultBranchRef"]

/-- Asks for the default branch of the repository at `address`, checked out at `path`. -/
def defaultBranch (w : World σ) (address : String) (path : Path) :
    StateM (Session σ) (Except Fault String) := do
  let answer ←
    match w.hosting with
    | .gh => do pure (branchFrom (← askGh w path viewArgs))
    | .service ask _ => do
      let s ← get
      let (answer, outside) := ask address s.outside
      set { s with outside }
      pure answer
  Session.note (.defaultBranch address answer)
  return answer

/-- The arguments with which `gh` opens a pull request. -/
def requestArgs (request : PullRequest) : List String :=
  ["pr", "create", "--title", request.title] ++
    match request.body with
    | some body => ["--body", body]
    | none => ["--fill"]

/-- Asks for a pull request and gives its address on the web. -/
def openRequest (w : World σ) (address : String) (path : Path) (request : PullRequest) :
    StateM (Session σ) (Except Fault String) := do
  let answer ←
    match w.hosting with
    | .gh => do pure ((← askGh w path (requestArgs request)).map Text.trim)
    | .service _ ask => do
      let s ← get
      let (answer, outside) := ask address request s.outside
      set { s with outside }
      pure answer
  Session.note (.pullRequest address request answer)
  return answer

/-- A service that knows repositories by owner and name. An address that does not tell them is
refused before the service is asked. -/
def ofSlugs (branch : RepoSlug → σ → Except Fault String × σ)
    (request : RepoSlug → PullRequest → σ → Except Fault String × σ) : Hosting σ :=
  let refused (address : String) : Fault :=
    .hosting s!"Cannot derive owner/repository from '{address}'"
  .service
    (fun address s =>
      match RepoSlug.parse? address with
      | some slug => branch slug s
      | none => (.error (refused address), s))
    (fun address pr s =>
      match RepoSlug.parse? address with
      | some slug => request slug pr s
      | none => (.error (refused address), s))

/-- What is said when the service has no token to work with. -/
def noToken : Fault := .hosting "GITHUB_TOKEN environment variable not set"

end Hosting

end CodeSweep
