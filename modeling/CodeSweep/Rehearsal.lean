import CodeSweep.Hosting

/-!
# Rehearsals

A sweep can be rehearsed without version control and network: a script of rules says what each
command prints, and tables say what the hosting platform knows.
-/

namespace CodeSweep

/-- What a scripted command does. -/
structure Response where
  output : Output := {}
  /-- Why the program does not start, if it does not. -/
  refused : Option String := none
  /-- Entries to make in the directory that the last argument names, if any. -/
  creates : Option (List (String × Entry)) := none
deriving Inhabited

/-- Which commands a list of responses is for. -/
structure ScriptRule where
  program : String := "git"
  args : List String
  /-- Whether further arguments may follow. -/
  more : Bool := false
  /-- The last name of the directory, if it matters. -/
  directory : Option String := none
  /-- The responses to the same command run again and again; the last one stays. -/
  responses : List Response
deriving Inhabited

namespace ScriptRule

/-- Whether the rule is for a command. -/
def covers (r : ScriptRule) (c : Command) : Bool :=
  r.program == c.program &&
    (if r.more then r.args.isPrefixOf c.args else r.args == c.args) &&
    r.directory.all fun name => c.cwd.fileName == some name

/-- The response when the same command ran `n` times before. -/
def response (r : ScriptRule) (n : Nat) : Response :=
  (r.responses[min n (r.responses.length - 1)]?).getD {}

end ScriptRule

/-- Commands that ran, oldest first. -/
abbrev Past := List Command

namespace Script

/-- The response of a script to a command: the first rule for it decides, and without one the command
succeeds silently. -/
def respond (rules : List ScriptRule) (past : Past) (c : Command) : Response :=
  match rules.find? (·.covers c) with
  | some rule => rule.response (past.count c)
  | none => {}

/-- Makes entries below a directory. -/
def plant (d : Disk) (base : Location) (entries : List (String × Entry)) : Disk :=
  entries.foldl (fun d (path, entry) =>
    let names := ((Text.pieces '/' path.toList).filter (!·.isEmpty)).map String.ofList
    d.plant entry (base ++ names)) d

/-- What a response does to the disk. -/
def effect (d : Disk) (c : Command) (response : Response) : Disk :=
  match response.creates, d.locate c.cwd, c.args.getLast? with
  | some entries, .ok loc, some name =>
    let here := loc ++ [name]
    let made := if d.isDir here then d else d.plant (.dir true .empty) here
    plant made here entries
  | _, _, _ => d

/-- Runs commands by script. -/
def run (rules : List ScriptRule) (c : Command) (state : Disk × Past) : Reply × Disk × Past :=
  let (disk, past) := state
  let response := respond rules past c
  let reply : Reply :=
    match response.refused with
    | some text => .error (.stated text)
    | none => .ok response.output
  (reply, effect disk c response, past ++ [c])

/-- Runs commands by script in a real place: only installed programs start, and only in directories
that exist. A program that the script does not let start has started and failed. -/
def runInstalled (programs : List String) (rules : List ScriptRule) (c : Command)
    (state : Disk × Past) : Reply × Disk × Past :=
  let (disk, past) := state
  match disk.locate c.cwd with
  | .error cause => (.error cause, state)
  | .ok loc =>
    match disk.search loc with
    | .error cause => (.error cause, state)
    | .ok _ =>
      if !programs.contains c.program then (.error .notFound, state)
      else
        let here : Command := { c with cwd := ⟨"/" ++ "/".intercalate loc⟩ }
        let response := respond rules past here
        let output : Output :=
          match response.refused with
          | some text => { stderr := text, success := false }
          | none => response.output
        (.ok output, effect disk here response, past ++ [here])

end Script

/-- A hosting platform that answers from tables: default branches and pull request addresses, by the
address of the repository. The address of an opened request spells the request out. -/
def Hosting.ofTables {σ : Type} (branch request : String → Option String) : Hosting σ :=
  .service
    (fun address s =>
      match branch address with
      | some name => (.ok name, s)
      | none => (.error (.hosting "no default branch"), s))
    (fun address pr s =>
      match request address with
      | some url =>
        let body := pr.body.getD "<none>"
        (.ok s!"{url}?title={pr.title}&head={pr.head}&body={body}", s)
      | none => (.error (.hosting "a pull request already exists"), s))

end CodeSweep
