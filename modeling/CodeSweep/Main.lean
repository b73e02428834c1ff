import CodeSweep.CommandLine

/-!
# The program

The outermost layer takes in the tree below the working directory, lets the command line work on it,
writes back the files that came out different, and prints. No grammar is linked in and no other
program can be started from here: a query is refused, and a command is not found.
-/

namespace CodeSweep.Program

/-- Takes in a file; one that cannot be read is kept as such. -/
def takeFile (entry : IO.FS.DirEntry) : IO Entry := do
  try
    let bytes ← IO.FS.readBinFile entry.path
    return .file { content := .ofBytes bytes.toList }
  catch _ => return .file { content := .binary [], access := .denied }

/-- Takes in the entries of a directory. -/
partial def takeAll (entries : Array IO.FS.DirEntry) : IO Listing := do
  let mut listing := Listing.empty
  for entry in entries do
    let info ← entry.path.symlinkMetadata
    match info.type with
    | .dir =>
      let inside : Entry ←
        try pure (.dir true (← takeAll (← entry.path.readDir)))
        catch _ => pure (.dir false .empty)
      listing := listing.put entry.fileName inside
    | .symlink =>
      try
        let target ← IO.FS.realPath entry.path
        listing := listing.put entry.fileName (.link target.toString)
      catch _ => pure ()
    | .file => listing := listing.put entry.fileName (← takeFile entry)
    | .other => pure ()
  return listing

/-- Writes the files of a tree that were not in it before, or were different. -/
def putBack (before after : Listing) : IO Unit := do
  for (names, file) in after.files [] do
    let same : Bool := match before.get? names with
      | some (.file f) => f == file
      | _ => false
    match same, file.content with
    | false, .text text =>
      IO.FS.createDirAll ("/" ++ "/".intercalate names.dropLast)
      IO.FS.writeFile ("/" ++ "/".intercalate names) text
    | _, _ => pure ()

/-- What the program finds around it: no grammar, and no programs. -/
def surroundings : CommandLine.Surroundings Unit where
  engine := .ofTable [] []
  run := fun _ (disk, outside) => (.error .notFound, disk, outside)

/-- Does what is asked for, on the files below the working directory. -/
def perform (request : CommandLine.Request) : IO CommandLine.Console := do
  let here ← IO.currentDir
  let workDir := (Path.mk here.toString).components.filterMap fun
    | .name name => some name
    | _ => none
  let found ← if request = .languages then pure Listing.empty else takeAll (← here.readDir)
  let disk := Disk.plant { workDir } (.dir true found) workDir
  let (console, session) := (CommandLine.perform surroundings request).run { disk, outside := () }
  putBack disk.root session.disk.root
  return console

end CodeSweep.Program

/-- Reads the arguments, does what they ask for, and prints. -/
def main (args : List String) : IO UInt32 := do
  let console ← match CodeSweep.CommandLine.readRequest args with
    | .ok request => CodeSweep.Program.perform request
    | .error stop => pure stop.console
  IO.print console.stdout
  IO.eprint console.stderr
  return console.code.toUInt32
