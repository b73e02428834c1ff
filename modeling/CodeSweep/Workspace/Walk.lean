import CodeSweep.Workspace.Disk

/-!
# Walking a directory

A walk lists the regular files below a directory, by name and depth first: what a directory holds
comes where the directory stands. Hidden entries are left out with all they hold, links are neither
listed nor followed, and a directory that cannot be listed is noted as failed.

An entry is hidden if its name is a text that begins with a dot. Names that are no text are not asked
for their first byte. The path of an entry may be longer than a path that is followed may be.
-/

namespace CodeSweep

/-- What a walk found, as names from the directory it started in. -/
structure Walked (ν : Type := String) where
  files : List (List ν) := []
  /-- Directories that could not be listed. -/
  failed : List (List ν) := []
deriving DecidableEq, Inhabited

variable {ν : Type} [LT ν] [EntryName ν]

/-- Whether an entry is hidden. -/
def isHidden (name : ν) : Bool := (EntryName.text? name).any fun s => s.toList.head? == some '.'

/-- Walks a listing that stands at `base`. -/
def Listing.walk (base : List ν) : Listing ν → Walked ν
  | .empty => {}
  | .file name _ rest =>
    let w := rest.walk base
    if isHidden name then w else { w with files := (base ++ [name]) :: w.files }
  | .link _ _ rest => rest.walk base
  | .dir name listable inside rest =>
    let w := rest.walk base
    if isHidden name then w
    else if listable then
      let below := inside.walk (base ++ [name])
      { files := below.files ++ w.files, failed := below.failed ++ w.failed }
    else { w with failed := (base ++ [name]) :: w.failed }

/-- Walks what a path leads to, and says where that is. A file holds no entries. -/
def Disk.walk [DecidableEq ν] (d : Disk ν) (root : Path) : Except Fault (Location ν × Walked ν) :=
  match d.locate root with
  | .error cause => .error (.walk root cause)
  | .ok loc =>
    match d.lookup? loc with
    | some (.dir true inside) => .ok (loc, inside.walk [])
    | some (.dir false _) => .error (.walk root .permissionDenied)
    | _ => .ok (loc, {})

end CodeSweep
