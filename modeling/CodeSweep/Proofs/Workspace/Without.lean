import CodeSweep.Proofs.Workspace.Follow

/-! # Trees without one entry

`without loc` is the tree with the entry at a location taken out, and all that it holds. Two trees that
are the same without an entry differ at most in that entry: everything beside it is the same
(`lookup?_eq_of_without`), and so is what a walk finds beside it (`walk_eq_of_without`). They stay so
when files are rewritten alike beside it (`without_mapFiles_congr`) and when something is set in its
place (`without_setAt`). -/

namespace CodeSweep

/-- What a walk found beside an entry. -/
def Walked.beside (w : Walked) (gone : String) : Walked where
  files := w.files.filter (·.head? != some gone)
  failed := w.failed.filter (·.head? != some gone)

namespace Listing

/-- The listing without the entry at a path of names. -/
def without : Listing → List String → Listing
  | .empty, _ => .empty
  | .file name f rest, loc => if loc = [name] then rest.without loc else .file name f (rest.without loc)
  | .link name target rest, loc =>
    if loc = [name] then rest.without loc else .link name target (rest.without loc)
  | .dir name listable inside rest, loc =>
    if loc = [name] then rest.without loc
    else
      .dir name listable (if loc.head? = some name then inside.without loc.tail else inside)
        (rest.without loc)

end Listing

/-- The entry of a name, where something may be taken out of its directory. -/
def Entry.without (name : String) (loc : List String) : Entry → Entry
  | .dir listable inside =>
    .dir listable (if loc.head? = some name then inside.without loc.tail else inside)
  | e => e

/-- The entry without one of its own. -/
def Entry.lacking (gone : String) : Entry → Entry
  | .dir listable inside => .dir listable (inside.without [gone])
  | e => e

theorem Entry.kind_lacking {gone : String} {e : Entry} : (e.lacking gone).kind = e.kind := by
  cases e <;> rfl

/-- Two entries that are the same without one of their own are directories, or the same. -/
theorem Entry.eq_of_lacking {gone : String} {x y : Option Entry}
    (h : x.map (·.lacking gone) = y.map (·.lacking gone)) :
    x = y ∨ ∃ listable inside inside', x = some (.dir listable inside) ∧
      y = some (.dir listable inside') ∧ inside.without [gone] = inside'.without [gone] := by
  match x, y with
  | none, none => exact .inl rfl
  | some (.dir listable inside), some (.dir listable' inside') =>
      simp only [Option.map_some, lacking, Option.some.injEq, Entry.dir.injEq] at h
      obtain ⟨rfl, hinside⟩ := h
      exact .inr ⟨_, _, _, rfl, rfl, hinside⟩
  | some (.file f), some (.file f') => simpa [lacking] using h
  | some (.link t), some (.link t') => simpa [lacking] using h
  | none, some e | some e, none => simp at h
  | some (.file f), some (.link t) | some (.file f), some (.dir l i) | some (.link t), some (.file f)
  | some (.link t), some (.dir l i) | some (.dir l i), some (.file f) | some (.dir l i), some (.link t) =>
      simp [lacking] at h

theorem Entry.without_of_ne {name : String} {loc : List String} (h : loc.head? ≠ some name) (e : Entry) :
    e.without name loc = e := by
  cases e <;> simp [without, h]

namespace Listing

variable {l rest inside : Listing} {e : Entry} {name other gone : String} {loc base more : List String}
  {listable : Bool}

@[simp] theorem without_cons : (cons name e rest).without loc =
    if loc = [name] then rest.without loc else cons name (e.without name loc) (rest.without loc) := by
  cases e <;> rfl

theorem names_without : (l.without loc).names ⊆ l.names := by
  induction l using consInduction with
  | empty => exact List.Subset.refl _
  | cons n e rest _ ih =>
      rw [without_cons, names_cons]
      split
      · exact List.subset_cons_of_subset _ ih
      · rw [names_cons]
        exact List.cons_subset_cons _ ih

theorem Proper.without (h : l.Proper) : (l.without loc).Proper := by
  induction l using consInduction generalizing loc with
  | empty => trivial
  | cons n e rest ihe ih =>
      obtain ⟨hlead, he, hrest⟩ := proper_cons.mp h
      rw [without_cons]
      split
      · exact ih hrest
      · refine proper_cons.mpr ⟨⟨hlead.1, fun later hlater => hlead.2 later (names_without hlater)⟩, ?_, ih hrest⟩
        cases e with
        | file f => trivial
        | link target => trivial
        | dir listable inside =>
            simp only [Entry.without]
            split
            · exact ihe listable inside rfl he
            · exact he

theorem find?_without : (l.without loc).find? name =
    if loc = [name] then none else (l.find? name).map (·.without name loc) := by
  induction l using consInduction with
  | empty => simp [without, find?]
  | cons n e rest _ ih =>
      rw [without_cons]
      by_cases hn : n = name
      · subst hn
        split
        next hloc => rw [ih, if_pos hloc]
        next => simp
      · split
        · simp [ih, hn]
        · simp [ih, hn]

/-- Beside the entry everything is as it was. -/
theorem get?_without_of_ne (h : other ≠ gone) :
    (l.without (base ++ [gone])).get? (base ++ other :: more) = l.get? (base ++ other :: more) := by
  induction base generalizing l with
  | nil =>
      have hne : [gone] ≠ [other] := by simpa using Ne.symm h
      have hhead : [gone].head? ≠ some other := by simpa using Ne.symm h
      refine get?_congr ?_
      rw [List.nil_append, find?_without, if_neg hne]
      simp [Entry.without_of_ne hhead]
  | cons first base ih =>
      rw [List.cons_append, List.cons_append, get?_cons (by simp), get?_cons (by simp), find?_without,
        if_neg (by simp)]
      cases l.find? first with
      | none => rfl
      | some e =>
          cases e with
          | file f => rfl
          | link target => rfl
          | dir listable inside => simpa [Entry.without] using ih

/-- The entry itself is gone, with all that it holds. -/
theorem get?_without_self : (l.without (base ++ [gone])).get? (base ++ gone :: more) = none := by
  induction base generalizing l with
  | nil => cases more <;> simp [get?, find?_without]
  | cons first base ih =>
      rw [List.cons_append, List.cons_append, get?_cons (by simp), find?_without, if_neg (by simp)]
      cases l.find? first with
      | none => rfl
      | some e =>
          cases e with
          | file f => rfl
          | link target => rfl
          | dir listable inside => simpa [Entry.without] using ih

/-- The directory around the entry is there without it. -/
theorem get?_without_around :
    (l.without (base ++ [gone])).get? base = (l.get? base).map (·.lacking gone) := by
  induction base generalizing l with
  | nil => rfl
  | cons first base ih =>
      rw [List.cons_append]
      by_cases hbase : base = []
      · subst hbase
        rw [get?, get?, find?_without, if_neg (by simp)]
        cases l.find? first with
        | none => rfl
        | some e => cases e <;> simp [Entry.without, Entry.lacking]
      · rw [get?_cons hbase, get?_cons hbase, find?_without, if_neg (by simp)]
        cases l.find? first with
        | none => rfl
        | some e =>
            cases e with
            | file f => rfl
            | link target => rfl
            | dir listable inside => simpa [Entry.without] using ih

/-- Rewriting files and taking out an entry do not see each other. -/
theorem without_mapFiles {g : List String → File → File} :
    (l.mapFiles g).without loc = (l.without loc).mapFiles g := by
  induction l using consInduction generalizing loc g with
  | empty => rfl
  | cons n e rest ihe ih =>
      rw [mapFiles_cons, without_cons, without_cons]
      split
      · exact ih
      · rw [mapFiles_cons, ih]
        congr 1
        cases e with
        | file f => rfl
        | link target => rfl
        | dir listable inside =>
            simp only [Entry.mapFiles, Entry.without]
            split
            · rw [ihe listable inside rfl]
            · rfl

/-- What a walk finds without an entry is what it finds beside it. -/
theorem walk_without : (l.without [gone]).walk [] = ((l.walk []).beside gone) := by
  induction l using consInduction with
  | empty => rfl
  | cons n e rest _ ih =>
      rw [without_cons, walk_cons, Walked.beside]
      by_cases hn : n = gone
      · subst hn
        have hfiles : (e.walk n).files.filter (·.head? != some n) = [] :=
          List.filter_eq_nil_iff.mpr fun names h => by simp [Entry.head_of_mem_walk (.inl h)]
        have hfailed : (e.walk n).failed.filter (·.head? != some n) = [] :=
          List.filter_eq_nil_iff.mpr fun names h => by simp [Entry.head_of_mem_walk (.inr h)]
        rw [if_pos rfl, ih]
        simp [Walked.beside, hfiles, hfailed]
      · have hfiles : (e.walk n).files.filter (·.head? != some gone) = (e.walk n).files :=
          List.filter_eq_self.mpr fun names h => by simp [Entry.head_of_mem_walk (.inl h), hn]
        have hfailed : (e.walk n).failed.filter (·.head? != some gone) = (e.walk n).failed :=
          List.filter_eq_self.mpr fun names h => by simp [Entry.head_of_mem_walk (.inr h), hn]
        have hhead : [gone].head? ≠ some n := by simpa using Ne.symm hn
        rw [if_neg (by simpa using Ne.symm hn), walk_cons, ih, Entry.without_of_ne hhead]
        simp [Walked.beside, hfiles, hfailed]

/-- Replacing an entry by one that is the same without what is gone. -/
theorem without_put (h : l.Proper)
    (he : loc = [name] ∨ ∃ old, l.find? name = some old ∧ old.without name loc = e.without name loc) :
    (l.put name e).without loc = l.without loc := by
  induction l using consInduction with
  | empty =>
      rcases he with rfl | ⟨old, hold, -⟩
      · simp [put]
      · cases hold
  | cons n e' rest _ ih =>
      obtain ⟨hlead, -, hrest⟩ := proper_cons.mp h
      rw [put_cons]
      by_cases hn : name = n
      · subst hn
        rw [if_neg (String.lt_irrefl name), if_pos rfl, without_cons, without_cons]
        rcases he with rfl | ⟨old, hold, hsame⟩
        · simp
        · rw [find?_cons, if_pos rfl] at hold
          cases hold
          rw [hsame]
      · have hlater : loc = [name] ∨ ∃ old, rest.find? name = some old ∧
            old.without name loc = e.without name loc := by
          rwa [find?_cons, if_neg (Ne.symm hn)] at he
        split
        next hlt =>
          -- it would stand before the first entry, so there was none
          rcases he with rfl | ⟨old, hold, -⟩
          · simp
          · rw [find?_cons, if_neg (Ne.symm hn)] at hold
            exact absurd hlt (String.lt_asymm (hlead.2 name (mem_names_of_find? hold)))
        next => rw [without_cons, without_cons, ih hrest hlater]

/-- What is set at a location is taken out like what was there. -/
theorem without_set (h : l.Proper) : (l.set e (base ++ [gone])).without (base ++ [gone]) =
    l.without (base ++ [gone]) := by
  induction base generalizing l with
  | nil => exact without_put h (.inl rfl)
  | cons first base ih =>
      rw [List.cons_append, set_cons (by simp)]
      split
      next listable inside hfirst =>
        refine without_put h (.inr ⟨_, hfirst, ?_⟩)
        have hinside : inside.Proper := (h.find? hfirst).2
        simp [Entry.without, ih hinside]
      next => rfl

end Listing

/-! ## Disks -/

namespace Disk

variable {d d' : Disk} {base loc place more : Location} {gone other : String}

/-- The disk without the entry at a location. -/
def without (d : Disk) (loc : Location) : Disk :=
  { d with root := d.root.without loc, proper := d.proper.without }

theorem lookup?_without_of_ne (h : other ≠ gone) :
    (d.without (base ++ [gone])).lookup? (base ++ other :: more) = d.lookup? (base ++ other :: more) := by
  have hget : (d.root.without (base ++ [gone])).get? (base ++ other :: more) =
      d.root.get? (base ++ other :: more) := Listing.get?_without_of_ne h
  cases base <;> exact hget

theorem lookup?_without_self :
    (d.without (base ++ [gone])).lookup? (base ++ gone :: more) = none := by
  have hget : (d.root.without (base ++ [gone])).get? (base ++ gone :: more) = none :=
    Listing.get?_without_self
  cases base <;> exact hget

theorem lookup?_without_around :
    (d.without (base ++ [gone])).lookup? base = (d.lookup? base).map (·.lacking gone) := by
  cases base with
  | nil => rfl
  | cons first base => exact Listing.get?_without_around

theorem kind?_without_around : (d.without (base ++ [gone])).kind? base = d.kind? base := by
  rw [kind?, lookup?_without_around, kind?, Option.map_map]
  exact congrFun (congrArg Option.map (funext fun _ => Entry.kind_lacking)) _

theorem without_setAt {e : Entry} {he : e.Proper}
    {hloc : ∀ n ∈ (base ++ [gone]).getLast?, Listing.isEntryName n = true} :
    (d.setAt e (base ++ [gone]) he hloc).without (base ++ [gone]) = d.without (base ++ [gone]) :=
  ext_root (Listing.without_set d.proper) rfl

/-! ## Disks that differ in one entry -/

section Same

variable (h : d.without (base ++ [gone]) = d'.without (base ++ [gone]))

include h

theorem kind?_around_eq : d.kind? base = d'.kind? base := by
  have hkind : (d.without (base ++ [gone])).kind? base = d.kind? base := kind?_without_around
  rw [← hkind, h, kind?_without_around]

/-- All that is beside the entry is the same. -/
theorem lookup?_eq_of_without (hne : other ≠ gone) :
    d.lookup? (base ++ other :: more) = d'.lookup? (base ++ other :: more) := by
  rw [← lookup?_without_of_ne hne, h, lookup?_without_of_ne hne]

/-- A walk of the directory finds the same beside the entry, or fails alike. -/
theorem walk_eq_of_without {root : Path} (hroot : d.locate root = d'.locate root)
    (hbase : ∀ loc, d.locate root = .ok loc → loc = base) :
    (∃ fault, d.walk root = .error fault ∧ d'.walk root = .error fault) ∨
      ∃ walked walked', d.walk root = .ok (base, walked) ∧ d'.walk root = .ok (base, walked') ∧
        walked.beside gone = walked'.beside gone := by
  have haround : (d.lookup? base).map (·.lacking gone) = (d'.lookup? base).map (·.lacking gone) := by
    rw [← lookup?_without_around, h, lookup?_without_around]
  unfold walk
  rw [← hroot]
  cases hlocate : d.locate root with
  | error cause => exact .inl ⟨_, rfl, rfl⟩
  | ok loc =>
      cases hbase loc hlocate
      dsimp only
      rcases Entry.eq_of_lacking haround with heq | ⟨listable, inside, inside', hd, hd', hinside⟩
      · rw [← heq]
        split
        · exact .inr ⟨_, _, rfl, rfl, rfl⟩
        · exact .inl ⟨_, rfl, rfl⟩
        · exact .inr ⟨_, _, rfl, rfl, rfl⟩
      · rw [hd, hd']
        cases listable with
        | false => exact .inl ⟨_, rfl, rfl⟩
        | true =>
            refine .inr ⟨_, _, rfl, rfl, ?_⟩
            rw [← Listing.walk_without, hinside, Listing.walk_without]

/-- Files beside the entry that are rewritten alike stay the same. -/
theorem without_mapFiles_congr {g g' : Location → File → File}
    (hg : ∀ place f, ¬ base ++ [gone] <+: place → g place f = g' place f) :
    (d.mapFiles g).without (base ++ [gone]) = (d'.mapFiles g').without (base ++ [gone]) := by
  have hout : ∀ (d : Disk) (g : Location → File → File),
      (d.mapFiles g).without (base ++ [gone]) = (d.without (base ++ [gone])).mapFiles g :=
    fun d g => ext_root Listing.without_mapFiles rfl
  rw [hout, hout, ← h]
  refine mapFiles_congr fun place f hf => hg place f ?_
  rintro ⟨more, rfl⟩
  rw [List.append_assoc, List.singleton_append, lookup?_without_self] at hf
  cases hf

end Same

end Disk

end CodeSweep
