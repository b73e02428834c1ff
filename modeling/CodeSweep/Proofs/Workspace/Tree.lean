import CodeSweep.Workspace.Walk

/-! # Files of a tree

Rewriting the files of a tree in place. `mapFiles g` changes every file as `g` says, which is given the
names that lead to the file, and leaves all else: names, links, directories and their order. Setting a
file that is there is such a change (`set_file_eq_mapFiles`), and what is found at a location afterwards
is what was found before, changed (`get?_mapFiles`).

What a walk finds are files of the tree (`get?_of_mem_walk`), in the order of their names
(`pairwise_walk`) and so each once (`walk_files`). -/

namespace CodeSweep

variable {ν : Type}

namespace Listing

/-- The listing with every file changed as `g` says. -/
def mapFiles (g : List ν → File → File) : Listing ν → Listing ν
  | .empty => .empty
  | .file name f rest => .file name (g [name] f) (rest.mapFiles g)
  | .link name target rest => .link name target (rest.mapFiles g)
  | .dir name listable inside rest =>
    .dir name listable (inside.mapFiles fun loc => g (name :: loc)) (rest.mapFiles g)

end Listing

/-- The entry at a location with every file changed as `g` says. -/
def Entry.mapFiles (g : List ν → File → File) (loc : List ν) : Entry ν → Entry ν
  | .file f => .file (g loc f)
  | .link target => .link target
  | .dir listable inside => .dir listable (inside.mapFiles fun more => g (loc ++ more))

namespace Listing

variable {l rest inside : Listing ν} {e : Entry ν} {f : File} {name other : ν}
  {loc : List ν} {g g' : List ν → File → File} {listable : Bool}

/-! ## Looking up -/

section

variable [DecidableEq ν]

theorem mem_names_of_find? (h : l.find? name = some e) : name ∈ l.names := by
  induction l using consInduction with
  | empty => cases h
  | cons n e' rest _ ih =>
      rw [find?_cons] at h
      split at h
      next hn => simp [hn]
      next => simp [ih h]

theorem get?_cons_self (h : loc ≠ []) :
    (cons name (.dir listable inside) rest).get? (name :: loc) = inside.get? loc := by
  obtain ⟨next, more, rfl⟩ := List.exists_cons_of_ne_nil h
  simp [get?, cons, find?]

theorem get?_cons_of_ne (h : name ≠ other) :
    (cons name e rest).get? (other :: loc) = rest.get? (other :: loc) := by
  cases loc <;> simp [get?, h]

theorem head_mem_names (h : l.get? (name :: loc) = some e) : name ∈ l.names := by
  cases loc with
  | nil => exact mem_names_of_find? h
  | cons next more =>
      rw [get?] at h
      split at h
      next hfind => exact mem_names_of_find? hfind
      next => cases h

/-- What is found among the later entries is found. -/
theorem get?_cons_of_get? [LT ν] [EntryName ν] (hlead : Leads name rest) {e' : Entry ν} (h : rest.get? loc = some e') :
    (cons name e rest).get? loc = some e' := by
  cases loc with
  | nil => cases h
  | cons other more =>
      have hlt := hlead.2 other (head_mem_names h)
      have hne : name ≠ other := fun heq => EntryName.lt_irrefl other (heq ▸ hlt)
      rw [get?_cons_of_ne hne, h]

theorem get?_append {more : List ν} (h : l.get? loc = some (.dir listable inside))
    (hmore : more ≠ []) : l.get? (loc ++ more) = inside.get? more := by
  fun_induction get? l loc with
  | case1 => cases h
  | case2 l name =>
      obtain ⟨next, more, rfl⟩ := List.exists_cons_of_ne_nil hmore
      simp [get?, h]
  | case3 l name next more' _ _ hfind ih =>
      have hih := ih h
      simpa [get?, hfind] using hih
  | case4 => cases h

end

/-! ## Changing files -/

@[simp] theorem mapFiles_cons :
    (cons name e rest).mapFiles g = cons name (e.mapFiles g [name]) (rest.mapFiles g) := by
  cases e <;> rfl

@[simp] theorem names_mapFiles : (l.mapFiles g).names = l.names := by
  induction l using consInduction with
  | empty => rfl
  | cons n e rest _ ih => simp [ih]

theorem find?_mapFiles [DecidableEq ν] : (l.mapFiles g).find? name = (l.find? name).map (·.mapFiles g [name]) := by
  induction l using consInduction with
  | empty => rfl
  | cons n e rest _ ih =>
      rw [mapFiles_cons, find?_cons, find?_cons]
      split
      next hn => simp [hn]
      next => exact ih

theorem get?_mapFiles [DecidableEq ν] : (l.mapFiles g).get? loc = (l.get? loc).map (·.mapFiles g loc) := by
  fun_induction get? l loc generalizing g with
  | case1 => rfl
  | case2 l name => exact find?_mapFiles
  | case3 l name next more listable inside hfind ih =>
      rw [get?, find?_mapFiles, hfind]
      -- below the directory, files are told to `g` with its name in front
      have hshift : ∀ e : Entry ν, e.mapFiles (fun more => g ([name] ++ more)) (next :: more) =
          e.mapFiles g (name :: next :: more) := by
        intro e
        cases e <;> rfl
      show (inside.mapFiles fun more => g ([name] ++ more)).get? (next :: more) = _
      rw [ih]
      simp only [hshift]
  | case4 l name next more hfind =>
      rw [get?, find?_mapFiles]
      split
      next listable inside hdir =>
        obtain ⟨e, he, hmap⟩ := Option.map_eq_some_iff.mp hdir
        cases e with
        | dir listable inside => exact absurd he (hfind _ _)
        | file f => cases hmap
        | link target => cases hmap
      next => rfl

theorem mapFiles_mapFiles :
    (l.mapFiles g).mapFiles g' = l.mapFiles fun loc f => g' loc (g loc f) := by
  induction l using consInduction generalizing g g' with
  | empty => rfl
  | cons n e rest ihe ih =>
      simp only [mapFiles_cons, ih]
      congr 1
      cases e with
      | file f => rfl
      | link target => rfl
      | dir listable inside =>
          simp only [Entry.mapFiles]
          rw [ihe listable inside rfl]

theorem mapFiles_id : (l.mapFiles fun _ f => f) = l := by
  induction l using consInduction with
  | empty => rfl
  | cons n e rest ihe ih =>
      rw [mapFiles_cons, ih]
      congr 1
      cases e with
      | file f => rfl
      | link target => rfl
      | dir listable inside => exact congrArg _ (ihe listable inside rfl)

variable [LT ν] [EntryName ν]

theorem Proper.mapFiles (h : l.Proper) : (l.mapFiles g).Proper := by
  induction l using consInduction generalizing g with
  | empty => trivial
  | cons n e rest ihe ih =>
      obtain ⟨hlead, he, hrest⟩ := proper_cons.mp h
      rw [mapFiles_cons, proper_cons]
      refine ⟨⟨hlead.1, by simpa using hlead.2⟩, ?_, ih hrest⟩
      cases e with
      | file f => trivial
      | link target => trivial
      | dir listable inside => exact ihe listable inside rfl he

variable [DecidableEq ν]

/-- Only what is done to the files that are there matters. -/
theorem mapFiles_congr (h : l.Proper)
    (hg : ∀ loc f, l.get? loc = some (.file f) → g loc f = g' loc f) :
    l.mapFiles g = l.mapFiles g' := by
  induction l using consInduction generalizing g g' with
  | empty => rfl
  | cons n e rest ihe ih =>
      obtain ⟨hlead, he, hrest⟩ := proper_cons.mp h
      have hlater : rest.mapFiles g = rest.mapFiles g' :=
        ih hrest fun loc f hf => hg loc f (get?_cons_of_get? hlead hf)
      rw [mapFiles_cons, mapFiles_cons, hlater]
      congr 1
      cases e with
      | file f => exact congrArg _ (hg [n] f (by simp [get?]))
      | link target => rfl
      | dir listable inside =>
          refine congrArg _ (ihe listable inside rfl he fun loc f hf => hg _ f ?_)
          have hne : loc ≠ [] := by
            rintro rfl
            cases hf
          rw [List.singleton_append, get?_cons_self hne, hf]

theorem mapFiles_eq_self (h : l.Proper)
    (hg : ∀ loc f, l.get? loc = some (.file f) → g loc f = f) : l.mapFiles g = l :=
  (mapFiles_congr h hg).trans mapFiles_id

end Listing

theorem Entry.mapFiles_eq_self [DecidableEq ν] [LT ν] [EntryName ν] {e : Entry ν}
    {g : List ν → File → File} {loc : List ν} (he : e.Proper) (hg : ∀ more f, g (loc ++ more) f = f) : e.mapFiles g loc = e := by
  cases e with
  | file f => exact congrArg _ (by simpa using hg [] f)
  | link target => rfl
  | dir listable inside => exact congrArg _ (Listing.mapFiles_eq_self he fun more f _ => hg more f)

namespace Listing

variable [DecidableEq ν] [LT ν] [DecidableLT ν] [EntryName ν]
variable {l rest inside : Listing ν} {e : Entry ν} {f : File} {name : ν} {loc : List ν}
  {g : List ν → File → File}

/-- An entry is put in the place of the one of its name. Where `g` changes files of that entry only,
this is what `g` does to the whole listing. -/
theorem put_eq_mapFiles (h : l.Proper) (he : l.find? name = some e)
    (hg : ∀ loc f, loc.head? ≠ some name → g loc f = f) :
    l.put name (e.mapFiles g [name]) = l.mapFiles g := by
  induction l using consInduction with
  | empty => cases he
  | cons n e' rest _ ih =>
      obtain ⟨hlead, he', hrest⟩ := proper_cons.mp h
      rw [put_cons, mapFiles_cons]
      rw [find?_cons] at he
      split at he
      next hn =>
        subst hn
        cases he
        have hlater : rest.mapFiles g = rest := by
          refine mapFiles_eq_self hrest fun loc f hf => hg loc f fun hhead => ?_
          obtain ⟨more, rfl⟩ := List.head?_eq_some_iff.mp hhead
          exact EntryName.lt_irrefl n (hlead.2 n (head_mem_names hf))
        rw [if_neg (EntryName.lt_irrefl n), if_pos rfl, hlater]
      next hn =>
        have hlt : n < name := hlead.2 name (mem_names_of_find? he)
        rw [if_neg (EntryName.lt_asymm hlt), if_neg (Ne.symm hn), ih hrest he]
        -- the entry in front has another name, and so have the files in it
        rw [Entry.mapFiles_eq_self he' fun more f => hg _ f (by simpa using hn)]

/-- Setting a file that is there changes that file only. -/
theorem set_file_eq_mapFiles (h : l.Proper) (hf : l.get? loc = some (.file f)) (new : File → File) :
    l.set (.file (new f)) loc = l.mapFiles fun place old => if place = loc then new old else old := by
  fun_induction get? l loc with
  | case1 => cases hf
  | case2 l name =>
      rw [set]
      refine Eq.trans ?_ (put_eq_mapFiles h hf fun place old hhead => if_neg fun heq => hhead (by simp [heq]))
      simp [Entry.mapFiles]
  | case3 l name next more listable inside hfind ih =>
      rw [set, hfind]
      dsimp only
      rw [ih (h.find? hfind).2 hf]
      refine Eq.trans ?_
        (put_eq_mapFiles h hfind fun place old hhead => if_neg fun heq => hhead (by simp [heq]))
      simp [Entry.mapFiles]
  | case4 => cases hf

end Listing

/-! ## Walks -/

variable [LT ν] [EntryName ν]

/-- What a walk finds at one entry. -/
def Entry.walk (name : ν) : Entry ν → Walked ν
  | .file _ => if isHidden name then {} else { files := [[name]] }
  | .link _ => {}
  | .dir listable inside =>
    if isHidden name then {}
    else if listable then
      let below := inside.walk []
      { files := below.files.map (name :: ·), failed := below.failed.map (name :: ·) }
    else { failed := [[name]] }

namespace Listing

variable {l rest : Listing ν} {e : Entry ν} {name : ν}

/-- Where a listing stands only shows in front of what is found. -/
theorem walk_eq_map (base : List ν) : l.walk base =
    { files := (l.walk []).files.map (base ++ ·), failed := (l.walk []).failed.map (base ++ ·) } := by
  induction l using consInduction generalizing base with
  | empty => rfl
  | cons n e rest ihe ih =>
      cases e with
      | file f =>
          simp only [cons, walk]
          rw [ih]
          split <;> simp
      | link target => exact ih base
      | dir listable inside =>
          simp only [cons, walk]
          rw [ih, ihe listable inside rfl (base ++ [n]), ihe listable inside rfl ([] ++ [n])]
          split
          · simp
          · split <;> simp

theorem walk_cons : (cons name e rest).walk [] =
    { files := (e.walk name).files ++ (rest.walk []).files
      failed := (e.walk name).failed ++ (rest.walk []).failed } := by
  cases e with
  | file f =>
      simp only [cons, walk, Entry.walk]
      split <;> simp
  | link target => rfl
  | dir listable inside =>
      simp only [cons, walk, Entry.walk]
      rw [walk_eq_map ([] ++ [name])]
      split
      · simp
      · split <;> simp

end Listing

/-- What files hold does not show in a walk. -/
theorem Listing.walk_mapFiles {l : Listing ν} (g : List ν → File → File) :
    (l.mapFiles g).walk [] = l.walk [] := by
  induction l using consInduction generalizing g with
  | empty => rfl
  | cons n e rest ihe ih =>
      have hentry : (e.mapFiles g [n]).walk n = e.walk n := by
        cases e with
        | file f => rfl
        | link target => rfl
        | dir listable inside => simp only [Entry.mapFiles, Entry.walk, ihe listable inside rfl]
      rw [mapFiles_cons, walk_cons, walk_cons, hentry, ih]

/-- All that is found at an entry is found under its name. -/
theorem Entry.head_of_mem_walk {e : Entry ν} {name : ν} {names : List ν}
    (h : names ∈ (e.walk name).files ∨ names ∈ (e.walk name).failed) : names.head? = some name := by
  cases e with
  | file f =>
      simp only [Entry.walk] at h
      split at h <;> simp_all
  | link target => simp [Entry.walk] at h
  | dir listable inside =>
      simp only [Entry.walk] at h
      split at h
      · simp at h
      · split at h
        · simp only [List.mem_map] at h
          obtain ⟨_, _, rfl⟩ | ⟨_, _, rfl⟩ := h <;> rfl
        · simp_all

namespace Listing

variable {l : Listing ν} {names : List ν}

/-- What a walk finds are files of the tree. -/
theorem get?_of_mem_walk [DecidableEq ν] (h : l.Proper) (hmem : names ∈ (l.walk []).files) :
    ∃ f, l.get? names = some (.file f) := by
  induction l using consInduction generalizing names with
  | empty => simp [walk] at hmem
  | cons n e rest ihe ih =>
      obtain ⟨hlead, he, hrest⟩ := proper_cons.mp h
      rw [walk_cons] at hmem
      rcases List.mem_append.mp hmem with hmem | hmem
      · cases e with
        | file f =>
            simp only [Entry.walk] at hmem
            split at hmem
            · simp at hmem
            · refine ⟨f, ?_⟩
              rw [List.mem_singleton.mp hmem]
              simp [get?]
        | link target => simp [Entry.walk] at hmem
        | dir listable inside =>
            simp only [Entry.walk] at hmem
            split at hmem
            · simp at hmem
            · split at hmem
              · obtain ⟨more, hmore, rfl⟩ := List.mem_map.mp hmem
                obtain ⟨f, hf⟩ := ihe _ inside rfl he hmore
                refine ⟨f, ?_⟩
                rw [get?_cons_self (by rintro rfl; cases hf), hf]
              · simp at hmem
      · obtain ⟨f, hf⟩ := ih hrest hmem
        exact ⟨f, get?_cons_of_get? hlead hf⟩

theorem isEntryName_of_mem_names {name : ν} (h : l.Proper) (hname : name ∈ l.names) :
    isEntryName name = true := by
  induction l using consInduction with
  | empty => cases hname
  | cons n e rest _ ih =>
      obtain ⟨hlead, -, hrest⟩ := proper_cons.mp h
      rw [names_cons, List.mem_cons] at hname
      rcases hname with rfl | hname
      · exact hlead.1
      · exact ih hrest hname

/-- Whatever a walk finds, it finds in an entry of the listing. -/
theorem exists_head_of_mem_walk (hmem : names ∈ (l.walk []).files ∨ names ∈ (l.walk []).failed) :
    ∃ name more, names = name :: more ∧ name ∈ l.names := by
  induction l using consInduction with
  | empty => simp [walk] at hmem
  | cons n e rest _ ih =>
      rw [walk_cons] at hmem
      simp only [List.mem_append] at hmem
      have hcases : (names ∈ (e.walk n).files ∨ names ∈ (e.walk n).failed) ∨
          (names ∈ (rest.walk []).files ∨ names ∈ (rest.walk []).failed) := by
        rcases hmem with (h | h) | (h | h) <;> simp [h]
      rcases hcases with hhere | hlater
      · obtain ⟨more, rfl⟩ := List.head?_eq_some_iff.mp (Entry.head_of_mem_walk hhere)
        exact ⟨n, more, rfl, by simp⟩
      · obtain ⟨name, more, rfl, hname⟩ := ih hlater
        exact ⟨name, more, rfl, by simp [hname]⟩

omit [EntryName ν] in
/-- What an entry holds is found in order under its name. -/
theorem pairwise_map_cons {name : ν} {found : List (List ν)} (h : found.Pairwise (· < ·)) :
    (found.map (name :: ·)).Pairwise (· < ·) :=
  List.pairwise_map.mpr (h.imp fun hlt => List.cons_lt_cons_iff.mpr (.inr ⟨rfl, hlt⟩))

/-- A walk notes files and directories in the order of their names. -/
theorem pairwise_walk (h : l.Proper) :
    (l.walk []).files.Pairwise (· < ·) ∧ (l.walk []).failed.Pairwise (· < ·) := by
  induction l using consInduction with
  | empty => exact ⟨.nil, .nil⟩
  | cons n e rest ihe ih =>
      obtain ⟨hlead, he, hrest⟩ := proper_cons.mp h
      have hentry : (e.walk n).files.Pairwise (· < ·) ∧ (e.walk n).failed.Pairwise (· < ·) := by
        cases e with
        | file f =>
            rw [Entry.walk]
            split <;> simp
        | link target => exact ⟨.nil, .nil⟩
        | dir listable inside =>
            obtain ⟨hfiles, hfailed⟩ := ihe listable inside rfl he
            rw [Entry.walk]
            split
            · exact ⟨.nil, .nil⟩
            · split
              · exact ⟨pairwise_map_cons hfiles, pairwise_map_cons hfailed⟩
              · simp
      -- what is found later is found under a later name
      have hlater : ∀ a b, (a ∈ (e.walk n).files ∨ a ∈ (e.walk n).failed) →
          (b ∈ (rest.walk []).files ∨ b ∈ (rest.walk []).failed) → a < b := by
        intro a b ha hb
        obtain ⟨below, rfl⟩ := List.head?_eq_some_iff.mp (Entry.head_of_mem_walk ha)
        obtain ⟨name, more, rfl, hname⟩ := exists_head_of_mem_walk hb
        exact List.cons_lt_cons_iff.mpr (.inl (hlead.2 name hname))
      obtain ⟨hfiles, hfailed⟩ := ih hrest
      rw [walk_cons]
      constructor
      · exact List.pairwise_append.mpr ⟨hentry.1, hfiles, fun a ha b hb => hlater a b (.inl ha) (.inl hb)⟩
      · exact List.pairwise_append.mpr ⟨hentry.2, hfailed, fun a ha b hb => hlater a b (.inr ha) (.inr hb)⟩

/-- What is noted in order is noted once. -/
theorem nodup_of_increasing {found : List (List ν)} (h : found.Pairwise (· < ·)) : found.Nodup := by
  refine h.imp fun hlt => ?_
  rintro rfl
  exact List.lt_irrefl _ hlt

end Listing

/-! ## Disks -/

namespace Disk

variable {d : Disk ν} {loc names : Location ν} {f : File} {inside : Listing ν} {listable : Bool}

/-- The disk with every file changed as `g` says. -/
def mapFiles (g : Location ν → File → File) (d : Disk ν) : Disk ν :=
  { d with root := d.root.mapFiles g, proper := d.proper.mapFiles }

theorem ext_root {d₁ d₂ : Disk ν} (hroot : d₁.root = d₂.root) (hdir : d₁.workDir = d₂.workDir) :
    d₁ = d₂ := by
  cases d₁
  cases d₂
  cases hroot
  cases hdir
  rfl

theorem mapFiles_mapFiles (g g' : Location ν → File → File) :
    (d.mapFiles g).mapFiles g' = d.mapFiles fun loc f => g' loc (g loc f) :=
  ext_root Listing.mapFiles_mapFiles rfl

variable [DecidableEq ν]

theorem lookup?_mapFiles (g : Location ν → File → File) :
    (d.mapFiles g).lookup? loc = (d.lookup? loc).map (·.mapFiles g loc) := by
  cases loc with
  | nil => rfl
  | cons name more => exact Listing.get?_mapFiles

theorem get?_of_lookup?_file (h : d.lookup? loc = some (.file f)) : d.root.get? loc = some (.file f) := by
  cases loc with
  | nil => cases h
  | cons name more => exact h

/-- Only what is done to the files that are there matters. -/
theorem mapFiles_congr {g g' : Location ν → File → File}
    (hg : ∀ loc f, d.lookup? loc = some (.file f) → g loc f = g' loc f) :
    d.mapFiles g = d.mapFiles g' := by
  refine ext_root (Listing.mapFiles_congr d.proper fun loc f hf => hg loc f ?_) rfl
  cases loc with
  | nil => cases hf
  | cons name more => exact hf

theorem mapFiles_eq_self {g : Location ν → File → File}
    (hg : ∀ loc f, d.lookup? loc = some (.file f) → g loc f = f) : d.mapFiles g = d :=
  (mapFiles_congr hg).trans (ext_root Listing.mapFiles_id rfl)

/-- The disk with the file at a location replaced. -/
def overwrite (d : Disk ν) (loc : Location ν) (f : File) : Disk ν :=
  d.mapFiles fun place old => if place = loc then f else old

theorem overwrite_self (h : d.lookup? loc = some (.file f)) : d.overwrite loc f = d := by
  refine mapFiles_eq_self fun place old hold => ?_
  split
  next hplace =>
    subst hplace
    cases h.symm.trans hold
    rfl
  next => rfl

/-- Writing replaces a file that is there, if it may be written. -/
theorem writeAt_of_file [DecidableLT ν] (h : d.lookup? loc = some (.file f)) (text : String) :
    d.writeAt loc text =
      if f.access = .full then .ok (d.overwrite loc { f with content := .text text })
      else .error .permissionDenied := by
  unfold writeAt
  split
  next f' hf' =>
    cases h.symm.trans hf'
    split
    · exact congrArg _ (ext_root (Listing.set_file_eq_mapFiles d.proper (get?_of_lookup?_file h) fun _ => _) rfl)
    · rfl
  next hdir => cases h.symm.trans hdir
  next hfile _ => exact absurd h (hfile f)

/-- What stands in a directory of the disk stands on the disk. -/
theorem lookup?_append (h : d.lookup? loc = some (.dir listable inside)) (hnames : names ≠ []) :
    d.lookup? (loc ++ names) = inside.get? names := by
  obtain ⟨name, more, rfl⟩ := List.exists_cons_of_ne_nil hnames
  cases loc with
  | nil =>
      cases h
      rfl
  | cons first others => exact Listing.get?_append h hnames

theorem proper_of_lookup? {e : Entry ν} (h : d.lookup? loc = some e) : e.Proper := by
  cases loc with
  | nil =>
      cases h
      exact d.proper
  | cons name more => exact (d.proper.get? h).2

/-- A walk starts where the path leads: in a directory that can be listed, or at an entry that holds
nothing. -/
theorem walk_eq_ok {root : Path} {base : Location ν} {walked : Walked ν} :
    d.walk root = .ok (base, walked) ↔ d.locate root = .ok base ∧
      ((∃ inside, d.lookup? base = some (.dir true inside) ∧ walked = inside.walk []) ∨
        (∀ listable inside, d.lookup? base ≠ some (.dir listable inside)) ∧ walked = {}) := by
  rw [walk]
  cases d.locate root with
  | error cause => simp
  | ok loc =>
      rw [Except.ok.injEq]
      dsimp only
      split
      next inside hdir =>
        constructor
        · intro h
          cases h
          exact ⟨rfl, .inl ⟨inside, hdir, rfl⟩⟩
        · rintro ⟨rfl, ⟨inside', hdir', rfl⟩ | ⟨hnone, -⟩⟩
          · cases hdir.symm.trans hdir'
            rfl
          · exact absurd hdir (hnone true inside)
      next inside hdir =>
        constructor
        · nofun
        · rintro ⟨rfl, ⟨inside', hdir', -⟩ | ⟨hnone, -⟩⟩
          · cases hdir.symm.trans hdir'
          · exact absurd hdir (hnone false inside)
      next hlistable hlocked =>
        constructor
        · intro h
          cases h
          refine ⟨rfl, .inr ⟨fun listable inside => ?_, rfl⟩⟩
          cases listable with
          | false => exact hlocked inside
          | true => exact hlistable inside
        · rintro ⟨rfl, ⟨inside, hdir, -⟩ | ⟨-, rfl⟩⟩
          · exact absurd hdir (hlistable inside)
          · rfl

/-- Whatever a walk of the disk finds has the name of an entry in front. -/
theorem exists_name_of_mem_walk {root : Path} {base : Location ν} {walked : Walked ν}
    (h : d.walk root = .ok (base, walked)) (hmem : names ∈ walked.files ∨ names ∈ walked.failed) :
    ∃ name more, names = name :: more ∧ Listing.isEntryName name = true := by
  obtain ⟨-, ⟨inside, hdir, rfl⟩ | ⟨-, rfl⟩⟩ := walk_eq_ok.mp h
  · obtain ⟨name, more, rfl, hname⟩ := Listing.exists_head_of_mem_walk hmem
    exact ⟨name, more, rfl, Listing.isEntryName_of_mem_names (proper_of_lookup? hdir) hname⟩
  · simp at hmem

/-- A walk of the disk notes files and directories in the order of their names. -/
theorem pairwise_walk {root : Path} {base : Location ν} {walked : Walked ν}
    (h : d.walk root = .ok (base, walked)) :
    walked.files.Pairwise (· < ·) ∧ walked.failed.Pairwise (· < ·) := by
  obtain ⟨-, ⟨inside, hdir, rfl⟩ | ⟨-, rfl⟩⟩ := walk_eq_ok.mp h
  · exact Listing.pairwise_walk (proper_of_lookup? hdir)
  · exact ⟨.nil, .nil⟩

/-- **A walk of the disk finds files of the disk, each once.** -/
theorem walk_files {root : Path} {base : Location ν} {walked : Walked ν}
    (h : d.walk root = .ok (base, walked)) :
    walked.files.Nodup ∧ ∀ names ∈ walked.files, ∃ f, d.lookup? (base ++ names) = some (.file f) := by
  refine ⟨Listing.nodup_of_increasing (pairwise_walk h).1, fun names hnames => ?_⟩
  obtain ⟨-, ⟨inside, hdir, rfl⟩ | ⟨-, rfl⟩⟩ := walk_eq_ok.mp h
  · obtain ⟨f, hf⟩ := Listing.get?_of_mem_walk (proper_of_lookup? hdir) hnames
    exact ⟨f, (lookup?_append hdir (by rintro rfl; cases hf)).trans hf⟩
  · cases hnames

end Disk

end CodeSweep
