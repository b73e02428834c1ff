import CodeSweep.Fault
import CodeSweep.Workspace.Listing

/-!
# Disks

A disk is a file tree with a working directory. Paths are followed step by step, through symbolic
links, to a location: the names that lead from the root of the tree to the entry itself. The tree of a
disk is always proper, so that a location has one entry and names lead to it in one way.

Paths and the targets of links are texts, whatever kind the names of entries are of. How long a path may
be is asked of paths that are followed. It is not asked again of what a walk finds and what is then read
and written at its location, nor does anything stop in the middle of being written.
-/

namespace CodeSweep

/-- Names from the root of the tree. -/
abbrev Location (ν : Type := String) := List ν

variable {ν : Type} [DecidableEq ν] [LT ν] [EntryName ν]

/-- A file tree and the directory that relative paths start from. -/
structure Disk (ν : Type := String) [LT ν] [EntryName ν] where
  root : Listing ν := .empty
  workDir : Location ν := []
  proper : root.Proper := by exact trivial

instance : Inhabited (Disk ν) := ⟨{}⟩

namespace Disk

/-- The entry at a location. -/
def lookup? (d : Disk ν) : Location ν → Option (Entry ν)
  | [] => some (.dir true d.root)
  | loc => d.root.get? loc

theorem isEntryName_of_lookup? {d : Disk ν} {loc : Location ν} {e : Entry ν} (h : d.lookup? loc = some e) :
    ∀ name ∈ loc, Listing.isEntryName name = true := by
  cases loc with
  | nil => simp
  | cons name more => exact (d.proper.get? h).1

/-- The disk with an entry set at a location, of which only the last name may be new. -/
def setAt [DecidableLT ν] (d : Disk ν) (e : Entry ν) (loc : Location ν) (he : e.Proper)
    (hloc : ∀ name ∈ loc.getLast?, Listing.isEntryName name = true) : Disk ν :=
  { d with root := d.root.set e loc, proper := d.proper.set he hloc }

/-- The disk with an entry at a location, and the directories on the way to it. What cannot stand in a
tree is not put there. -/
def plant [DecidableLT ν] (d : Disk ν) (e : Entry ν) (loc : Location ν) : Disk ν :=
  if h : e.Proper ∧ ∀ name ∈ loc, Listing.isEntryName name = true then
    { d with root := d.root.plant e loc, proper := d.proper.plant h.1 h.2 }
  else d

/-- Whether there is a directory at the location. -/
def isDir (d : Disk ν) (loc : Location ν) : Bool :=
  match d.lookup? loc with
  | some (.dir _ _) => true
  | _ => false

/-- Whether the path leads through the entry: it has to be a directory that may be searched. -/
def search (d : Disk ν) (loc : Location ν) : Except IoFault (Listing ν) :=
  match d.lookup? loc with
  | some (.dir true inside) => .ok inside
  | some (.dir false _) => .error .permissionDenied
  | _ => .error .notADirectory

/-- One step on the way that a path describes. -/
inductive Step where
  | root
  | here
  | up
  | name (name : String)
  /-- What was reached has to be a directory. -/
  | directory
deriving DecidableEq, Inhabited

/-- The step that a piece between slashes asks for, if any. -/
def Step.ofPiece? (piece : List Char) : Option Step :=
  if piece = [] then none
  else if piece = ['.'] then some .here
  else if piece = ['.', '.'] then some .up
  else some (.name (String.ofList piece))

/-- A step to a name is to the name of an entry. -/
theorem Step.isEntryName_of_ofPiece? {cs piece : List Char} {name : String}
    (hpiece : piece ∈ Text.pieces '/' cs) (h : Step.ofPiece? piece = some (.name name)) :
    Listing.isEntryName name = true := by
  have hslash := Text.not_mem_of_mem_pieces hpiece
  simp only [Step.ofPiece?] at h
  split at h
  · cases h
  split at h
  · cases h
  split at h
  · cases h
  next hempty hhere hup =>
    cases h
    simp [Listing.isEntryName_iff, hslash, ← String.toList_inj, hempty, hhere, hup]

/-- The steps from the root, or from where the path is followed, over some pieces between slashes. -/
def stepsOver (p : Path) (pieces : List (List Char)) : List Step :=
  (if p.isAbsolute then [.root] else []) ++ pieces.filterMap Step.ofPiece?

/-- The steps to follow for a path. Unlike for the comparison of paths, a dot and a slash at the end
count: they ask for a directory. -/
def stepsOf (p : Path) : List Step :=
  let pieces := Text.pieces '/' p.text.toList
  stepsOver p pieces ++ if pieces.getLast? = some [] then [.directory] else []

/-- How many symbolic links are followed on one way. -/
def linkLimit : Nat := 40

/-- How many bytes a name may have. -/
def nameLimit : Nat := 255

/-- How many bytes a path may have. -/
def pathLimit : Nat := 4095

/-- Follows steps from a location, up to the first link on the way; `jump` says where its target and
the remaining steps lead from the directory that the link is in. -/
def followTo (d : Disk ν) (jump : Location ν → List Step → Except IoFault (Location ν)) :
    Location ν → List Step → Except IoFault (Location ν)
  | loc, [] => .ok loc
  | _, .root :: rest => d.followTo jump [] rest
  | loc, .directory :: rest => if d.isDir loc then d.followTo jump loc rest else .error .notADirectory
  | loc, .here :: rest =>
    match d.search loc with
    | .error cause => .error cause
    | .ok _ => d.followTo jump loc rest
  | loc, .up :: rest =>
    match d.search loc with
    | .error cause => .error cause
    | .ok _ => d.followTo jump loc.dropLast rest
  | loc, .name name :: rest =>
    match d.search loc with
    | .error cause => .error cause
    | .ok inside =>
      if nameLimit < name.utf8ByteSize then .error .nameTooLong
      else
        match inside.find? (EntryName.ofText name) with
        | none => .error .notFound
        | some (.link target) => jump loc (stepsOf ⟨target⟩ ++ rest)
        | some _ => d.followTo jump (loc ++ [EntryName.ofText name]) rest

/-- Follows steps from a location; the number is that of the links that may still be followed. -/
def follow (d : Disk ν) : Nat → Location ν → List Step → Except IoFault (Location ν)
  | 0 => d.followTo fun _ _ => .error .tooManyLinks
  | hops + 1 => d.followTo (d.follow hops)

/-- Why a path cannot lead anywhere, whatever the disk holds. -/
def malformed? (p : Path) : Option IoFault :=
  if p.text.toList.contains '\x00' then some .zeroInName
  else if p.text.isEmpty then some .notFound
  else if pathLimit < p.text.utf8ByteSize then some .nameTooLong
  else none

/-- Where a path leads. -/
def locate (d : Disk ν) (p : Path) : Except IoFault (Location ν) :=
  match malformed? p with
  | some cause => .error cause
  | none => d.follow linkLimit d.workDir (stepsOf p)

/-- Whether a path leads anywhere. -/
def exists? (d : Disk ν) (p : Path) : Bool := (d.locate p).toBool

/-- The text of the file at a location. -/
def readAt (d : Disk ν) (loc : Location ν) : Except IoFault String :=
  match d.lookup? loc with
  | some (.file f) =>
    if f.access = .denied then .error .permissionDenied
    else
      match f.content with
      | .text s => .ok s
      | .binary _ => .error .notText
  | some (.dir listable _) => .error (if listable then .isADirectory else .permissionDenied)
  | _ => .error .notFound

/-- The text of the file that a path leads to. -/
def read (d : Disk ν) (p : Path) : Except IoFault String :=
  match d.locate p with
  | .ok loc => d.readAt loc
  | .error fault => .error fault

/-- Replaces the text of the file at a location. -/
def writeAt [DecidableLT ν] (d : Disk ν) (loc : Location ν) (text : String) : Except IoFault (Disk ν) :=
  match h : d.lookup? loc with
  | some (.file f) =>
    if f.access = .full then
      .ok (d.setAt (.file { f with content := .text text }) loc (Entry.proper_file _)
        fun name hname => isEntryName_of_lookup? h name (List.mem_of_getLast? hname))
    else .error .permissionDenied
  | some (.dir _ _) => .error .isADirectory
  | _ => .error .notFound

/-- Whether a path leads to a directory. -/
def leadsToDir (d : Disk ν) (p : Path) : Bool := (d.locate p).toOption.any d.isDir

variable [DecidableLT ν]

/-- Makes a directory, in one that is there. Links at the end of the path are not followed. -/
def makeDir (d : Disk ν) (p : Path) : Except IoFault (Disk ν) :=
  match malformed? p with
  | some cause => .error cause
  | none =>
    match hpieces : ((Text.pieces '/' p.text.toList).filter (!·.isEmpty)).reverse with
    | [] => .error .fileExists
    | last :: before =>
      match d.follow linkLimit d.workDir (stepsOver p before.reverse) with
      | .error cause => .error cause
      | .ok loc =>
        match d.search loc, hlast : Step.ofPiece? last with
        | .error cause, _ => .error cause
        | .ok inside, some (.name name) =>
          if nameLimit < name.utf8ByteSize then .error .nameTooLong
          else if (inside.find? (EntryName.ofText name)).isSome then .error .fileExists
          else
            .ok (d.setAt (.dir true .empty) (loc ++ [EntryName.ofText name]) (Entry.proper_empty true)
              fun n hn => by
                have hmem : last ∈ Text.pieces '/' p.text.toList := by
                  have := hpieces ▸ List.mem_cons_self (a := last) (l := before)
                  exact (List.mem_filter.mp (List.mem_reverse.mp this)).1
                have hname : n = EntryName.ofText name := by simpa using hn.symm
                rw [hname, Listing.isEntryName_ofText]
                exact Step.isEntryName_of_ofPiece? hmem hlast)
        | .ok _, _ => .error .fileExists

/-- Makes a directory unless it is there. -/
def ensureDir (d : Disk ν) (p : Path) : Except IoFault Unit × Disk ν :=
  match d.makeDir p with
  | .ok made => (.ok (), made)
  | .error cause => (if d.leadsToDir p then .ok () else .error cause, d)

/-- Makes the directory at a path, after the one around it if that is missing. Every step up is to a
shorter path. -/
def makeDirsFrom : Nat → Disk ν → Path → Except IoFault Unit × Disk ν
  | 0, d, _ => (.ok (), d)
  | fuel + 1, d, p =>
    if p.text.isEmpty then (.ok (), d)
    else
      match d.ensureDir p, p.parent with
      | (.error .notFound, _), some parent =>
        match makeDirsFrom fuel d parent with
        | (.ok (), d) => d.ensureDir p
        | (.error cause, d) => (.error cause, d)
      | outcome, _ => outcome

/-- Makes the directory at a path, with the directories on the way to it. Those that were made stay,
also when the next one cannot be. -/
def makeDirs (d : Disk ν) (p : Path) : Except IoFault Unit × Disk ν :=
  makeDirsFrom (p.text.length + 1) d p

end Disk

end CodeSweep
