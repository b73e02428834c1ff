import CodeSweep.Workspace.EntryName

/-!
# Directory listings

A directory is the list of its entries in order of their names. An entry is a file, a symbolic link
or a directory with a listing of its own, so a whole file tree is one listing.

A listing is proper when the names of every directory in it increase and are names of entries. Putting
proper entries into proper listings keeps them so (`Proper.put`, `Proper.set`, `Proper.plant`).

Names are of any kind (`EntryName`), and texts where none is said. An entry stands under one name, so
that there are no hard links, and there are no devices, sockets or pipes. A directory that may not be
listed may not be searched either, and the other way round.
-/

namespace CodeSweep

/-- What a file holds. -/
inductive Content where
  | text (text : String)
  /-- Bytes that are no text. -/
  | binary (bytes : List UInt8)
deriving DecidableEq, Inhabited

/-- The content that the bytes are. -/
def Content.ofBytes (bytes : List UInt8) : Content :=
  match Text.ofBytes? bytes with
  | some s => .text s
  | none => .binary bytes

/-- What may be done with a file. -/
inductive Access where
  | full
  | readOnly
  | denied
deriving DecidableEq, Inhabited

/-- A regular file. -/
structure File where
  content : Content
  access : Access := .full
deriving DecidableEq, Inhabited

/-- The entries of a directory: each constructor is an entry, followed by the remaining ones. -/
inductive Listing (ν : Type := String) where
  | empty
  | file (name : ν) (file : File) (rest : Listing ν)
  | link (name : ν) (target : String) (rest : Listing ν)
  | dir (name : ν) (listable : Bool) (inside : Listing ν) (rest : Listing ν)
deriving Inhabited

/-- What a name in a directory stands for. -/
inductive Entry (ν : Type := String) where
  | file (file : File)
  | link (target : String)
  | dir (listable : Bool) (inside : Listing ν)
deriving Inhabited

variable {ν : Type}

namespace Listing

/-- The listing with an entry in front. -/
def cons (name : ν) : Entry ν → Listing ν → Listing ν
  | .file f, rest => .file name f rest
  | .link target, rest => .link name target rest
  | .dir listable inside, rest => .dir name listable inside rest

/-- The names of the listing's own entries, in order. -/
def names : Listing ν → List ν
  | .empty => []
  | .file name _ rest | .link name _ rest | .dir name _ _ rest => name :: rest.names

/-- The regular files with their paths, in order. -/
def files (base : List ν) : Listing ν → List (List ν × File)
  | .empty => []
  | .file name f rest => (base ++ [name], f) :: rest.files base
  | .link _ _ rest => rest.files base
  | .dir name _ inside rest => inside.files (base ++ [name]) ++ rest.files base

section

variable [DecidableEq ν]

/-- The entry of that name. -/
def find? (name : ν) : Listing ν → Option (Entry ν)
  | .empty => none
  | .file n f rest => if n = name then some (.file f) else rest.find? name
  | .link n target rest => if n = name then some (.link target) else rest.find? name
  | .dir n listable inside rest =>
    if n = name then some (.dir listable inside) else rest.find? name

/-- The entry at a path of names. Links are entries and are not followed. -/
def get? (l : Listing ν) : List ν → Option (Entry ν)
  | [] => none
  | [name] => l.find? name
  | name :: next :: more =>
    match l.find? name with
    | some (.dir _ inside) => inside.get? (next :: more)
    | _ => none

variable [LT ν] [DecidableLT ν]

/-- Puts an entry in its place by name; an entry of the same name is replaced. -/
def put (name : ν) (e : Entry ν) : Listing ν → Listing ν
  | .empty => cons name e .empty
  | .file n f rest =>
    if name < n then cons name e (.file n f rest)
    else if name = n then cons name e rest
    else .file n f (rest.put name e)
  | .link n target rest =>
    if name < n then cons name e (.link n target rest)
    else if name = n then cons name e rest
    else .link n target (rest.put name e)
  | .dir n listable inside rest =>
    if name < n then cons name e (.dir n listable inside rest)
    else if name = n then cons name e rest
    else .dir n listable inside (rest.put name e)

/-- Sets the entry at a path of names. Nothing happens if there is no directory to put it in. -/
def set (l : Listing ν) (e : Entry ν) : List ν → Listing ν
  | [] => l
  | [name] => l.put name e
  | name :: next :: more =>
    match l.find? name with
    | some (.dir listable inside) => l.put name (.dir listable (inside.set e (next :: more)))
    | _ => l

/-- Sets the entry at a path of names, with the directories on the way to it. -/
def plant (l : Listing ν) (e : Entry ν) : List ν → Listing ν
  | [] => l
  | [name] => l.put name e
  | name :: next :: more =>
    match l.find? name with
    | some (.dir listable inside) => l.put name (.dir listable (inside.plant e (next :: more)))
    | _ => l.put name (.dir true (Listing.empty.plant e (next :: more)))

end

/-! ## Proper listings -/

section

variable [LT ν] [EntryName ν]

/-- Whether an entry can have a name: it is not empty, holds no slash, and is not what every directory
calls itself and the one around it. -/
def isEntryName (name : ν) : Bool :=
  let bytes := EntryName.bytes name
  bytes != [] && bytes != [0x2e] && bytes != [0x2e, 0x2e] && !bytes.contains 0x2f

/-- An entry can have a text for its name exactly if it can be called so in every kind of names. -/
theorem isEntryName_ofText (s : String) : isEntryName (EntryName.ofText s : ν) = isEntryName s := by
  simp only [isEntryName, EntryName.bytes_ofText]
  rfl

theorem isEntryName_iff {name : String} :
    isEntryName name = true ↔ name ≠ "" ∧ name ≠ "." ∧ name ≠ ".." ∧ '/' ∉ name.toList := by
  have hempty : Text.bytesOf name = [] ↔ name = "" := Text.bytesOf_inj (b := "")
  have hhere : Text.bytesOf name = [0x2e] ↔ name = "." := Text.bytesOf_inj (b := ".")
  have hup : Text.bytesOf name = [0x2e, 0x2e] ↔ name = ".." := Text.bytesOf_inj (b := "..")
  simp only [isEntryName, EntryName.bytes, Bool.and_eq_true, bne_iff_ne, ne_eq, hempty, hhere, hup,
    Bool.not_eq_true', List.contains_eq_mem, decide_eq_false_iff_not, Text.slash_mem_bytesOf, and_assoc]

/-- Whether an entry of that name may stand before the remaining ones. -/
def Leads (name : ν) (rest : Listing ν) : Prop :=
  isEntryName name = true ∧ ∀ later ∈ rest.names, name < later

/-- Whether the names of every directory increase and are names of entries. -/
def Proper : Listing ν → Prop
  | .empty => True
  | .file name _ rest | .link name _ rest => Leads name rest ∧ rest.Proper
  | .dir name _ inside rest => Leads name rest ∧ inside.Proper ∧ rest.Proper

variable [DecidableLT ν]

instance (name : ν) (rest : Listing ν) : Decidable (Leads name rest) :=
  inferInstanceAs (Decidable (_ ∧ _))

instance decidableProper : (l : Listing ν) → Decidable l.Proper
  | .empty => inferInstanceAs (Decidable True)
  | .file name _ rest | .link name _ rest =>
    have := decidableProper rest
    inferInstanceAs (Decidable (Leads name rest ∧ rest.Proper))
  | .dir name _ inside rest =>
    have := decidableProper inside
    have := decidableProper rest
    inferInstanceAs (Decidable (Leads name rest ∧ inside.Proper ∧ rest.Proper))

end

end Listing

section

variable [LT ν] [EntryName ν]

/-- Whether what stands in a directory is proper itself. -/
def Entry.Proper : Entry ν → Prop
  | .dir _ inside => inside.Proper
  | _ => True

theorem Entry.proper_file (f : File) : (Entry.file f : Entry ν).Proper := trivial

theorem Entry.proper_empty (listable : Bool) : (Entry.dir listable .empty : Entry ν).Proper := trivial

instance [DecidableLT ν] : (e : Entry ν) → Decidable e.Proper
  | .file _ | .link _ => inferInstanceAs (Decidable True)
  | .dir _ inside => inferInstanceAs (Decidable inside.Proper)

end

namespace Listing

variable {l rest : Listing ν} {e : Entry ν} {name other : ν} {loc : List ν}

/-- A listing is empty or has an entry in front, and what that entry holds is a listing as well. -/
@[elab_as_elim] theorem consInduction {motive : Listing ν → Prop} (empty : motive .empty)
    (cons : ∀ name e rest, (∀ listable inside, e = .dir listable inside → motive inside) →
      motive rest → motive (cons name e rest)) : ∀ l, motive l
  | .empty => empty
  | .file name f rest => cons name (.file f) rest nofun (consInduction empty cons rest)
  | .link name target rest => cons name (.link target) rest nofun (consInduction empty cons rest)
  | .dir name listable inside rest =>
    cons name (.dir listable inside) rest
      (fun _ _ h => (Entry.dir.inj h).2 ▸ consInduction empty cons inside)
      (consInduction empty cons rest)

@[simp] theorem names_cons : (cons name e rest).names = name :: rest.names := by
  cases e <;> rfl

section

variable [DecidableEq ν]

@[simp] theorem find?_cons :
    (cons name e rest).find? other = if name = other then some e else rest.find? other := by
  cases e <;> rfl

variable [LT ν] [DecidableLT ν]

@[simp] theorem put_cons {e' : Entry ν} :
    (cons other e' rest).put name e =
      if name < other then cons name e (cons other e' rest)
      else if name = other then cons name e rest
      else cons other e' (rest.put name e) := by
  cases e' <;> rfl

theorem mem_names_put : other ∈ (l.put name e).names ↔ other = name ∨ other ∈ l.names := by
  induction l using consInduction with
  | empty => simp [put, names]
  | cons n e' rest _ ih =>
    rw [put_cons]
    split
    · simp
    · split
      next h => simp [h]
      next => simp only [names_cons, List.mem_cons, ih, or_left_comm]

end

variable [LT ν] [EntryName ν]

@[simp] theorem proper_cons :
    (cons name e rest).Proper ↔ Leads name rest ∧ e.Proper ∧ rest.Proper := by
  cases e <;> simp [cons, Proper, Entry.Proper]

variable [DecidableEq ν]

theorem Proper.find? (h : l.Proper) (he : l.find? name = some e) :
    isEntryName name = true ∧ e.Proper := by
  induction l using consInduction with
  | empty => cases he
  | cons n e' rest _ ih =>
    obtain ⟨hlead, he', hrest⟩ := proper_cons.mp h
    rw [find?_cons] at he
    split at he
    next hn =>
      cases he
      exact ⟨hn ▸ hlead.1, he'⟩
    next => exact ih hrest he

theorem Proper.get? (h : l.Proper) (he : l.get? loc = some e) :
    (∀ name ∈ loc, isEntryName name = true) ∧ e.Proper := by
  fun_induction Listing.get? l loc with
  | case1 => cases he
  | case2 l name => simpa using h.find? he
  | case3 l name next more listable inside hfind ih =>
    obtain ⟨hname, hinside⟩ := h.find? hfind
    obtain ⟨hmore, hproper⟩ := ih hinside he
    exact ⟨List.forall_mem_cons.mpr ⟨hname, hmore⟩, hproper⟩
  | case4 => cases he

variable [DecidableLT ν]

theorem Proper.put (h : l.Proper) (hname : isEntryName name = true) (he : e.Proper) :
    (l.put name e).Proper := by
  induction l using consInduction with
  | empty => exact proper_cons.mpr ⟨⟨hname, nofun⟩, he, trivial⟩
  | cons n e' rest _ ih =>
    obtain ⟨hlead, he', hrest⟩ := proper_cons.mp h
    rw [put_cons]
    split
    next hlt =>
      refine proper_cons.mpr ⟨⟨hname, fun later hlater => ?_⟩, he, h⟩
      rw [names_cons, List.mem_cons] at hlater
      rcases hlater with rfl | hlater
      · exact hlt
      · exact EntryName.lt_trans hlt (hlead.2 later hlater)
    next hlt =>
      split
      next heq => exact proper_cons.mpr ⟨⟨hname, fun later hlater => heq ▸ hlead.2 later hlater⟩, he, hrest⟩
      -- neither smaller nor equal, so the name comes later
      next hne =>
        have hgt : n < name := EntryName.lt_of_not_lt_of_ne hlt hne
        refine proper_cons.mpr ⟨⟨hlead.1, fun later hlater => ?_⟩, he', ih hrest⟩
        rcases mem_names_put.mp hlater with rfl | hlater
        · exact hgt
        · exact hlead.2 later hlater

/-- Only the last name can be a new one. -/
theorem Proper.set (h : l.Proper) (he : e.Proper) (hloc : ∀ name ∈ loc.getLast?, isEntryName name = true) :
    (l.set e loc).Proper := by
  fun_induction Listing.set l e loc with
  | case1 => exact h
  | case2 l name => exact h.put (hloc name rfl) he
  | case3 l name next more listable inside hfind ih =>
    obtain ⟨hname, hinside⟩ := h.find? hfind
    exact h.put hname (ih hinside (by simpa using hloc))
  | case4 => exact h

theorem Proper.plant (h : l.Proper) (he : e.Proper) (hloc : ∀ name ∈ loc, isEntryName name = true) :
    (l.plant e loc).Proper := by
  fun_induction Listing.plant l e loc with
  | case1 => exact h
  | case2 l name => exact h.put (hloc name (by simp)) he
  | case3 l name next more listable inside hfind ih =>
    exact h.put (hloc name (by simp)) (ih (h.find? hfind).2 fun n hn => hloc n (by simp [hn]))
  | case4 l name next more hfind ih =>
    exact h.put (hloc name (by simp)) (ih trivial fun n hn => hloc n (by simp [hn]))

end Listing

end CodeSweep
