import CodeSweep.Proofs.Workspace.Naming
import CodeSweep.Proofs.Workspace.Tree

/-! # Following paths

A path is followed step by step, so what is appended to it is followed from where it leads
(`follow_append`). Where a way leads is decided by the kinds of the entries on it: which of them are
directories that can be searched, and which are links and to what. A way that is open therefore stays
open (`Grows.follow`) when files are rewritten (`grows_mapFiles`) and when an entry is set where there
was none (`grows_setAt`). -/

namespace CodeSweep

variable {ν : Type}

namespace Disk

variable [DecidableEq ν] [LT ν] [EntryName ν]
variable {d d' : Disk ν} {loc base : Location ν} {steps rest : List Step} {hops : Nat}

/-! ## Single steps -/

@[simp] theorem follow_nil : d.follow hops loc [] = .ok loc := by
  cases hops <;> rfl

@[simp] theorem follow_root : d.follow hops loc (.root :: rest) = d.follow hops [] rest := by
  cases hops <;> rfl

theorem follow_directory : d.follow hops loc (.directory :: rest) =
    if d.isDir loc then d.follow hops loc rest else .error .notADirectory := by
  cases hops <;> rfl

theorem follow_here : d.follow hops loc (.here :: rest) =
    match d.search loc with
    | .error cause => .error cause
    | .ok _ => d.follow hops loc rest := by
  cases hops <;> rfl

theorem follow_up : d.follow hops loc (.up :: rest) =
    match d.search loc with
    | .error cause => .error cause
    | .ok _ => d.follow hops loc.dropLast rest := by
  cases hops <;> rfl

/-- Where a link leads, as far as links may be followed. -/
def jump (d : Disk ν) (loc : Location ν) (steps : List Step) : Nat → Except IoFault (Location ν)
  | 0 => .error .tooManyLinks
  | hops + 1 => d.follow hops loc steps

theorem follow_name {name : String} : d.follow hops loc (.name name :: rest) =
    match d.search loc with
    | .error cause => .error cause
    | .ok inside =>
      if nameLimit < name.utf8ByteSize then .error .nameTooLong
      else
        match inside.find? (EntryName.ofText name) with
        | none => .error .notFound
        | some (.link target) => d.jump loc (stepsOf ⟨target⟩ ++ rest) hops
        | some _ => d.follow hops (loc ++ [EntryName.ofText name]) rest := by
  cases hops <;> rfl

omit [DecidableEq ν] [LT ν] [EntryName ν] in
/-- Following goes on with fewer steps, or with fewer links left to follow. -/
theorem followInduction {motive : Nat → Location ν → List Step → Prop}
    (nil : ∀ hops loc, motive hops loc [])
    (cons : ∀ hops loc step rest, (∀ fewer < hops, ∀ loc steps, motive fewer loc steps) →
      (∀ loc, motive hops loc rest) → motive hops loc (step :: rest)) :
    ∀ hops loc steps, motive hops loc steps := by
  intro hops
  induction hops using Nat.strongRecOn with
  | _ hops ih =>
      intro loc steps
      induction steps generalizing loc with
      | nil => exact nil hops loc
      | cons step rest ihsteps => exact cons hops loc step rest ih ihsteps

/-- A way leads nowhere, whatever comes after it, or what comes after it is followed from where it
leads, with some of the links left to follow. -/
theorem follow_append (d : Disk ν) (hops : Nat) (loc : Location ν) (steps : List Step) :
    (∃ cause, ∀ more, d.follow hops loc (steps ++ more) = .error cause) ∨
      ∃ hops' loc', ∀ more, d.follow hops loc (steps ++ more) = d.follow hops' loc' more := by
  induction hops, loc, steps using followInduction with
  | nil hops loc => exact .inr ⟨hops, loc, fun _ => rfl⟩
  | cons hops loc step rest ihlinks ih =>
      cases step with
      | root => simpa using ih []
      | directory =>
          simp only [List.cons_append, follow_directory]
          split
          · exact ih loc
          · exact .inl ⟨_, fun _ => rfl⟩
      | here =>
          simp only [List.cons_append, follow_here]
          split
          · exact .inl ⟨_, fun _ => rfl⟩
          · exact ih loc
      | up =>
          simp only [List.cons_append, follow_up]
          split
          · exact .inl ⟨_, fun _ => rfl⟩
          · exact ih loc.dropLast
      | name name =>
          simp only [List.cons_append, follow_name]
          split
          · exact .inl ⟨_, fun _ => rfl⟩
          split
          · exact .inl ⟨_, fun _ => rfl⟩
          split
          · exact .inl ⟨_, fun _ => rfl⟩
          next target _ =>
            -- the target of the link is followed before the rest
            cases hops with
            | zero => exact .inl ⟨_, fun _ => rfl⟩
            | succ hops =>
                have hlink := ihlinks hops (Nat.lt_succ_self hops) loc (stepsOf ⟨target⟩ ++ rest)
                simpa only [List.append_assoc, jump] using hlink
          · exact ih (loc ++ [EntryName.ofText name])

/-- What comes after a way that leads somewhere is followed from there. -/
theorem follow_append_of_ok (h : d.follow hops loc steps = .ok base) :
    ∃ hops', ∀ more, d.follow hops loc (steps ++ more) = d.follow hops' base more := by
  rcases follow_append d hops loc steps with ⟨cause, herror⟩ | ⟨hops', loc', hmore⟩
  · have hnone := herror []
    rw [List.append_nil, h] at hnone
    cases hnone
  · have hhere := hmore []
    rw [List.append_nil, h, follow_nil] at hhere
    cases hhere
    exact ⟨hops', hmore⟩

/-- A way that leads somewhere leads somewhere at each of its steps. -/
theorem follow_of_append_ok {more : List Step} (h : d.follow hops loc (steps ++ more) = .ok base) :
    ∃ loc', d.follow hops loc steps = .ok loc' := by
  rcases follow_append d hops loc steps with ⟨cause, herror⟩ | ⟨hops', loc', hmore⟩
  · rw [herror] at h
    cases h
  · exact ⟨loc', by simpa using hmore []⟩

end Disk

/-! ## Ways that stay open -/

/-- What of an entry decides where ways lead. -/
inductive Entry.Kind where
  | file
  | link (target : String)
  | dir (listable : Bool)
deriving DecidableEq

/-- The kind of an entry. -/
def Entry.kind : Entry ν → Entry.Kind
  | .file _ => .file
  | .link target => .link target
  | .dir listable _ => .dir listable

namespace Disk

variable [DecidableEq ν] [LT ν] [EntryName ν]
variable {d d' : Disk ν} {loc base : Location ν} {steps rest : List Step} {hops : Nat} {name : String}

/-- The kind of the entry at a location. -/
def kind? (d : Disk ν) (loc : Location ν) : Option Entry.Kind := (d.lookup? loc).map Entry.kind

theorem search_eq_ok {inside : Listing ν} :
    d.search loc = .ok inside ↔ d.lookup? loc = some (.dir true inside) := by
  unfold search
  split <;> simp_all

theorem kind?_eq_dir {listable : Bool} :
    d.kind? loc = some (.dir listable) ↔ ∃ inside, d.lookup? loc = some (.dir listable inside) := by
  unfold kind?
  cases d.lookup? loc with
  | none => simp
  | some e => cases e <;> simp [Entry.kind]

theorem isDir_iff : d.isDir loc = true ↔ ∃ listable, d.kind? loc = some (.dir listable) := by
  simp only [kind?_eq_dir]
  unfold isDir
  split <;> simp_all

theorem follow_here_eq_ok : d.follow hops loc (.here :: rest) = .ok base ↔
    d.kind? loc = some (.dir true) ∧ d.follow hops loc rest = .ok base := by
  rw [follow_here, kind?_eq_dir]
  simp only [← search_eq_ok]
  split <;> simp_all

theorem follow_up_eq_ok : d.follow hops loc (.up :: rest) = .ok base ↔
    d.kind? loc = some (.dir true) ∧ d.follow hops loc.dropLast rest = .ok base := by
  rw [follow_up, kind?_eq_dir]
  simp only [← search_eq_ok]
  split <;> simp_all

/-- Where the entry of a name leads: a link to its target, anything else to itself. -/
def step (d : Disk ν) (hops : Nat) (loc : Location ν) (name : String) (rest : List Step) :
    Entry.Kind → Except IoFault (Location ν)
  | .link target => d.jump loc (stepsOf ⟨target⟩ ++ rest) hops
  | _ => d.follow hops (loc ++ [EntryName.ofText name]) rest

theorem follow_name_eq_ok : d.follow hops loc (.name name :: rest) = .ok base ↔
    d.kind? loc = some (.dir true) ∧ name.utf8ByteSize ≤ nameLimit ∧
      ∃ kind, d.kind? (loc ++ [EntryName.ofText name]) = some kind ∧ d.step hops loc name rest kind = .ok base := by
  rw [follow_name, kind?_eq_dir]
  simp only [← search_eq_ok]
  cases hsearch : d.search loc with
  | error cause => simp
  | ok inside =>
      have hfind : d.kind? (loc ++ [EntryName.ofText name]) =
          (inside.find? (EntryName.ofText name)).map Entry.kind := by
        rw [kind?, lookup?_append (search_eq_ok.mp hsearch) (List.cons_ne_nil _ []), Listing.get?]
      rw [hfind]
      dsimp only
      split
      next hlong => simp [Nat.not_le.mpr hlong]
      next hshort =>
        have hle := Nat.not_lt.mp hshort
        cases inside.find? (EntryName.ofText name) with
        | none => simp
        | some e => cases e <;> simp [hle, Entry.kind, step]

/-- Wherever there is an entry on the first disk, there is one of its kind on the second. -/
structure Grows (d d' : Disk ν) : Prop where
  workDir : d'.workDir = d.workDir
  kind : ∀ loc kind, d.kind? loc = some kind → d'.kind? loc = some kind

namespace Grows

variable (h : Grows d d')

include h

theorem isDir (hd : d.isDir loc = true) : d'.isDir loc = true := by
  obtain ⟨listable, hkind⟩ := isDir_iff.mp hd
  exact isDir_iff.mpr ⟨listable, h.kind _ _ hkind⟩

/-- A way that leads somewhere still leads there. -/
theorem follow (hf : d.follow hops loc steps = .ok base) : d'.follow hops loc steps = .ok base := by
  induction hops, loc, steps using followInduction with
  | nil hops loc => simpa using hf
  | cons hops loc step rest ihlinks ih =>
      cases step with
      | root =>
          rw [follow_root] at hf ⊢
          exact ih _ hf
      | directory =>
          rw [follow_directory] at hf ⊢
          split at hf
          next hdir => rw [if_pos (h.isDir hdir), ih _ hf]
          next => cases hf
      | here =>
          obtain ⟨hdir, hrest⟩ := follow_here_eq_ok.mp hf
          exact follow_here_eq_ok.mpr ⟨h.kind _ _ hdir, ih _ hrest⟩
      | up =>
          obtain ⟨hdir, hrest⟩ := follow_up_eq_ok.mp hf
          exact follow_up_eq_ok.mpr ⟨h.kind _ _ hdir, ih _ hrest⟩
      | name name =>
          obtain ⟨hdir, hshort, kind, hkind, hstep⟩ := follow_name_eq_ok.mp hf
          refine follow_name_eq_ok.mpr ⟨h.kind _ _ hdir, hshort, kind, h.kind _ _ hkind, ?_⟩
          cases kind with
          | file => exact ih _ hstep
          | dir listable => exact ih _ hstep
          | link target =>
              cases hops with
              | zero => cases hstep
              | succ hops => exact ihlinks hops (Nat.lt_succ_self hops) _ _ hstep

end Grows

theorem kind?_mapFiles (g : Location ν → File → File) : (d.mapFiles g).kind? loc = d.kind? loc := by
  rw [kind?, kind?, lookup?_mapFiles]
  cases d.lookup? loc with
  | none => rfl
  | some e => cases e <;> rfl

theorem grows_mapFiles (d : Disk ν) (g : Location ν → File → File) : d.Grows (d.mapFiles g) :=
  ⟨rfl, fun _ _ h => (kind?_mapFiles g).trans h⟩

/-- A directory whose files are rewritten is walked as before. -/
theorem walk_mapFiles {root : Path} {walked : Walked ν} (h : d.walk root = .ok (base, walked))
    (g : Location ν → File → File) : (d.mapFiles g).walk root = .ok (base, walked) := by
  obtain ⟨hlocate, hentry⟩ := walk_eq_ok.mp h
  have hlocate' : (d.mapFiles g).locate root = .ok base := by
    unfold locate at hlocate ⊢
    split at hlocate
    next => cases hlocate
    next => exact (grows_mapFiles d g).follow hlocate
  refine walk_eq_ok.mpr ⟨hlocate', ?_⟩
  rcases hentry with ⟨inside, hdir, rfl⟩ | ⟨hnone, rfl⟩
  · exact .inl ⟨_, by rw [lookup?_mapFiles, hdir]; rfl, (Listing.walk_mapFiles _).symm⟩
  · refine .inr ⟨fun listable inside hdir => ?_, rfl⟩
    have hkind := kind?_eq_dir.mpr ⟨inside, hdir⟩
    rw [kind?_mapFiles] at hkind
    obtain ⟨inside', hdir'⟩ := kind?_eq_dir.mp hkind
    exact hnone listable inside' hdir'

end Disk

/-! ## New entries -/

namespace Listing

variable [DecidableEq ν]
variable {l inside : Listing ν} {e x : Entry ν} {name other : ν} {loc place : List ν} {listable : Bool}

theorem get?_cons (h : loc ≠ []) : l.get? (name :: loc) =
    match l.find? name with
    | some (.dir _ inside) => inside.get? loc
    | _ => none := by
  obtain ⟨next, more, rfl⟩ := List.exists_cons_of_ne_nil h
  rfl

/-- Only what has the first name decides. -/
theorem get?_congr {l' : Listing ν} (h : l'.find? name = l.find? name) :
    l'.get? (name :: loc) = l.get? (name :: loc) := by
  cases loc <;> simp [get?, h]

variable [LT ν] [DecidableLT ν]

theorem find?_put : (l.put name e).find? other = if name = other then some e else l.find? other := by
  induction l using consInduction with
  | empty => simp [put, find?]
  | cons n e' rest _ ih =>
      rw [put_cons]
      split
      · rw [find?_cons]
      · split
        next heq =>
          subst heq
          by_cases hn : name = other <;> simp [hn]
        next hne =>
          rw [find?_cons, find?_cons, ih]
          split
          next hn => rw [if_neg (hn ▸ hne)]
          next => rfl

theorem set_cons (h : loc ≠ []) : l.set e (name :: loc) =
    match l.find? name with
    | some (.dir listable inside) => l.put name (.dir listable (inside.set e loc))
    | _ => l := by
  obtain ⟨next, more, rfl⟩ := List.exists_cons_of_ne_nil h
  rfl

/-- An entry that is set in a directory is there. -/
theorem get?_set_self (h : loc = [] ∨ ∃ listable inside, l.get? loc = some (.dir listable inside)) :
    (l.set e (loc ++ [name])).get? (loc ++ [name]) = some e := by
  induction loc generalizing l with
  | nil => simp [set, get?, find?_put]
  | cons first loc ih =>
      obtain ⟨listable, inside, hdir⟩ := h.resolve_left (List.cons_ne_nil _ _)
      obtain ⟨listable', below, hfirst, hbelow⟩ : ∃ listable' below,
          l.find? first = some (.dir listable' below) ∧
            (loc = [] ∨ ∃ listable inside, below.get? loc = some (.dir listable inside)) := by
        by_cases hloc : loc = []
        · subst hloc
          exact ⟨listable, inside, hdir, .inl rfl⟩
        · rw [get?_cons hloc] at hdir
          split at hdir
          next listable' below hfirst => exact ⟨listable', below, hfirst, .inr ⟨_, _, hdir⟩⟩
          next => cases hdir
      have hne : loc ++ [name] ≠ [] := by simp
      rw [List.cons_append, set_cons hne, hfirst, get?_cons hne, find?_put, if_pos rfl]
      exact ih hbelow

/-- Setting an entry where there was none leaves all others of the kind that they are. -/
theorem kind_set (hnone : l.get? loc = none) (hx : l.get? place = some x) :
    ∃ x', (l.set e loc).get? place = some x' ∧ x'.kind = x.kind := by
  induction loc generalizing l place with
  | nil => exact ⟨x, hx, rfl⟩
  | cons first loc ih =>
      obtain ⟨head, more, rfl⟩ : ∃ head more, place = head :: more := by
        cases place with
        | nil => cases hx
        | cons head more => exact ⟨head, more, rfl⟩
      by_cases hloc : loc = []
      · subst hloc
        have hne : first ≠ head := by
          rintro rfl
          cases more <;> simp_all [get?]
        refine ⟨x, ?_, rfl⟩
        rw [set, get?_congr (l := l) (by rw [find?_put, if_neg hne]), hx]
      · rw [get?_cons hloc] at hnone
        rw [set_cons hloc]
        split at hnone
        next listable inside hfirst =>
          by_cases hne : first = head
          · subst hne
            by_cases hmore : more = []
            · subst hmore
              cases hfirst.symm.trans hx
              exact ⟨.dir listable (inside.set e loc), by simp [get?, find?_put], rfl⟩
            · rw [get?_cons hmore, hfirst] at hx
              rw [get?_cons hmore, find?_put, if_pos rfl]
              exact ih hnone hx
          · refine ⟨x, ?_, rfl⟩
            rw [get?_congr (l := l) (by rw [find?_put, if_neg hne]), hx]
        next => exact ⟨x, hx, rfl⟩

end Listing

namespace Disk

variable [DecidableEq ν] [LT ν] [DecidableLT ν] [EntryName ν]
variable {d : Disk ν} {e : Entry ν} {loc : Location ν} {name : ν} {inside : Listing ν} {listable : Bool}
  {he : e.Proper} {hloc : ∀ n ∈ (loc ++ [name]).getLast?, Listing.isEntryName n = true}

theorem lookup?_setAt_self (hdir : d.lookup? loc = some (.dir listable inside)) :
    (d.setAt e (loc ++ [name]) he hloc).lookup? (loc ++ [name]) = some e := by
  have hset : (d.root.set e (loc ++ [name])).get? (loc ++ [name]) = some e := by
    refine Listing.get?_set_self ?_
    cases loc with
    | nil => exact .inl rfl
    | cons first more => exact .inr ⟨_, _, hdir⟩
  cases loc <;> exact hset

/-- All that was there stays of its kind when an entry is set where there was none. -/
theorem grows_setAt (hnone : d.lookup? (loc ++ [name]) = none) :
    d.Grows (d.setAt e (loc ++ [name]) he hloc) := by
  refine ⟨rfl, fun place kind hkind => ?_⟩
  cases place with
  | nil => exact hkind
  | cons head more =>
      obtain ⟨x, hx, rfl⟩ := Option.map_eq_some_iff.mp hkind
      have hroot : d.root.get? (loc ++ [name]) = none := by
        cases loc <;> exact hnone
      obtain ⟨x', hx', hkind'⟩ := Listing.kind_set (e := e) hroot hx
      exact Option.map_eq_some_iff.mpr ⟨x', hx', hkind'⟩

end Disk

end CodeSweep
