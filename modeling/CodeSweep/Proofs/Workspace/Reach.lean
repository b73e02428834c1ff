import CodeSweep.Proofs.Workspace.Follow

/-! # What a walk reaches

Names lead to an entry of a listing by way of directories. A walk looks into every directory that it
can list and that is not hidden, and notes the files and the directories that it cannot list. So it
notes exactly those that names in plain sight lead to (`mem_walk_iff`). -/

namespace CodeSweep

variable {ν : Type}

/-- Names lead to an entry of a listing, by way of directories that can be listed. -/
inductive Listing.Reaches [DecidableEq ν] : Listing ν → List ν → Entry ν → Prop
  | entry {l name e} (h : l.find? name = some e) : Reaches l [name] e
  | inside {l name inside more e} (h : l.find? name = some (.dir true inside))
      (rest : Reaches inside more e) : Reaches l (name :: more) e

/-- Whether a walk notes entries of a kind. -/
def Entry.Kind.isNoted : Entry.Kind → Bool
  | .file => true
  | .link _ => false
  | .dir listable => !listable

theorem Entry.Kind.isNoted_iff {kind : Entry.Kind} :
    kind.isNoted = true ↔ kind = .file ∨ kind = .dir false := by
  cases kind <;> simp [isNoted]

/-- Where a walk noted entries of a kind. -/
def Walked.noted (w : Walked ν) : Entry.Kind → List (List ν)
  | .file => w.files
  | .dir false => w.failed
  | _ => []

variable [LT ν] [EntryName ν]

/-- Whether no name on the way is hidden. -/
def InSight (names : List ν) : Prop := ∀ name ∈ names, isHidden name = false

theorem inSight_cons {name : ν} {more : List ν} :
    InSight (name :: more) ↔ isHidden name = false ∧ InSight more := List.forall_mem_cons

/-- An entry is noted itself, or what the walk of its listing noted. -/
theorem Entry.mem_walk_iff {x : Entry ν} {kind : Entry.Kind} {name : ν} {names : List ν}
    (hkind : kind.isNoted = true) : names ∈ (x.walk name).noted kind ↔ isHidden name = false ∧
      (names = [name] ∧ x.kind = kind ∨ ∃ inside more, names = name :: more ∧ x = .dir true inside ∧
        more ∈ (inside.walk []).noted kind) := by
  cases hhidden : isHidden name with
  | true =>
      have hnone : x.walk name = {} := by
        cases x <;> simp [walk, hhidden]
      have hempty : ({} : Walked ν).noted kind = [] := by
        unfold Walked.noted
        split <;> rfl
      simp [hnone, hempty]
  | false =>
      have hdir : ∀ inside : Listing ν, ((Entry.dir true inside).walk name).noted kind =
          ((inside.walk []).noted kind).map (name :: ·) := by
        intro inside
        simp only [walk, hhidden, Walked.noted]
        split <;> simp
      have hmap : ∀ found : List (List ν), names ∈ found.map (name :: ·) ↔
          ∃ more, names = name :: more ∧ more ∈ found := by
        intro found
        simp [List.mem_map, and_comm, eq_comm]
      have hnoted := Kind.isNoted_iff.mp hkind
      cases x with
      | file f => rcases hnoted with rfl | rfl <;> simp [walk, hhidden, Walked.noted, Entry.kind]
      | link target => rcases hnoted with rfl | rfl <;> simp [walk, Walked.noted, Entry.kind]
      | dir listable inside =>
          cases listable with
          | false => rcases hnoted with rfl | rfl <;> simp [walk, hhidden, Walked.noted, Entry.kind]
          | true => rcases hnoted with rfl | rfl <;> simp [hdir, hmap, Entry.kind]

variable [DecidableEq ν]

namespace Listing

variable {l rest : Listing ν} {e x : Entry ν} {name : ν} {names : List ν}

omit [LT ν] [EntryName ν] in
/-- What names lead to stands where they say. -/
theorem Reaches.get? (h : l.Reaches names e) : l.get? names = some e := by
  induction h with
  | entry h => exact h
  | @inside l name inside more e h rest ih =>
      have hmore : more ≠ [] := by
        cases rest <;> exact List.cons_ne_nil _ _
      rw [get?_cons hmore, h]
      exact ih

/-- Names lead to the entry in front, to what it holds, or to one of the later entries. -/
theorem reaches_cons (hlead : Leads name rest) : (cons name x rest).Reaches names e ↔
    (names = [name] ∧ x = e ∨ ∃ inside more, names = name :: more ∧ x = .dir true inside ∧
      inside.Reaches more e) ∨ rest.Reaches names e := by
  have hlater : ∀ other y, rest.find? other = some y → (cons name x rest).find? other = some y := by
    intro other y hfind
    have hlt : name < other := hlead.2 other (mem_names_of_find? hfind)
    have hne : name ≠ other := fun heq => EntryName.lt_irrefl other (heq ▸ hlt)
    rw [find?_cons, if_neg hne, hfind]
  constructor
  · intro h
    cases h with
    | entry hfind =>
        rw [find?_cons] at hfind
        split at hfind
        next heq => exact .inl (.inl ⟨by rw [heq], Option.some.inj hfind⟩)
        next => exact .inr (.entry hfind)
    | inside hfind hrest =>
        rw [find?_cons] at hfind
        split at hfind
        next heq => exact .inl (.inr ⟨_, _, by rw [heq], Option.some.inj hfind, hrest⟩)
        next => exact .inr (.inside hfind hrest)
  · rintro ((⟨rfl, rfl⟩ | ⟨inside, more, rfl, rfl, hrest⟩) | h)
    · exact .entry (by simp)
    · exact .inside (by simp) hrest
    · cases h with
      | entry hfind => exact .entry (hlater _ _ hfind)
      | inside hfind hrest => exact .inside (hlater _ _ hfind) hrest

/-- **A walk misses nothing in plain sight.** It notes an entry exactly when names that are not hidden
lead to it. -/
theorem mem_walk_iff {kind : Entry.Kind} (h : l.Proper) (hkind : kind.isNoted = true) :
    names ∈ (l.walk []).noted kind ↔ (∃ e, e.kind = kind ∧ l.Reaches names e) ∧ InSight names := by
  induction l using consInduction generalizing names with
  | empty =>
      have hempty : ((empty : Listing ν).walk []).noted kind = [] := by
        unfold Walked.noted
        split <;> rfl
      rw [hempty]
      constructor
      · nofun
      · rintro ⟨⟨e, -, hreach⟩, -⟩
        cases hreach <;> contradiction
  | cons n x rest ihx ih =>
      obtain ⟨hlead, hx, hrest⟩ := proper_cons.mp h
      have happend : ((cons n x rest).walk []).noted kind =
          (x.walk n).noted kind ++ (rest.walk []).noted kind := by
        rw [walk_cons]
        unfold Walked.noted
        split <;> rfl
      rw [happend, List.mem_append, Entry.mem_walk_iff hkind, ih hrest]
      simp only [reaches_cons hlead]
      constructor
      · rintro (⟨hhidden, ⟨rfl, hself⟩ | ⟨inside, more, rfl, rfl, hmem⟩⟩ | ⟨⟨e, he, hreach⟩, hsight⟩)
        · exact ⟨⟨x, hself, .inl (.inl ⟨rfl, rfl⟩)⟩, by simpa [InSight] using hhidden⟩
        · obtain ⟨⟨e, he, hreach⟩, hsight⟩ := (ihx true inside rfl hx).mp hmem
          exact ⟨⟨e, he, .inl (.inr ⟨inside, more, rfl, rfl, hreach⟩)⟩,
            inSight_cons.mpr ⟨hhidden, hsight⟩⟩
        · exact ⟨⟨e, he, .inr hreach⟩, hsight⟩
      · rintro ⟨⟨e, he, (⟨rfl, rfl⟩ | ⟨inside, more, rfl, rfl, hreach⟩) | hreach⟩, hsight⟩
        · exact .inl ⟨(inSight_cons.mp hsight).1, .inl ⟨rfl, he⟩⟩
        · obtain ⟨hhidden, hmore⟩ := inSight_cons.mp hsight
          have hmem := (ihx true inside rfl hx).mpr ⟨⟨e, he, hreach⟩, hmore⟩
          exact .inl ⟨hhidden, .inr ⟨inside, more, rfl, rfl, hmem⟩⟩
        · exact .inr ⟨⟨e, he, hreach⟩, hsight⟩

end Listing

namespace Disk

variable {d : Disk ν} {base : Location ν} {walked : Walked ν} {names : List ν} {inside : Listing ν}
  {e : Entry ν}

/-- What names lead to from a directory of the disk stands on the disk, under names of entries. -/
theorem lookup?_of_reaches {listable : Bool} (hdir : d.lookup? base = some (.dir listable inside))
    (h : inside.Reaches names e) :
    d.lookup? (base ++ names) = some e ∧ ∀ name ∈ names, Listing.isEntryName name = true := by
  have hget := h.get?
  have hne : names ≠ [] := by
    rintro rfl
    cases hget
  exact ⟨(lookup?_append hdir hne).trans hget, ((proper_of_lookup? hdir).get? hget).1⟩

/-- Names lead to an entry if there are directories on the way that can be listed. -/
theorem reaches_of_kind? (hdir : d.lookup? base = some (.dir true inside))
    (he : d.lookup? (base ++ names) = some e) (hne : names ≠ [])
    (hway : ∀ before, before <+: names → before ≠ names → d.kind? (base ++ before) = some (.dir true)) :
    inside.Reaches names e := by
  induction names generalizing base inside with
  | nil => exact absurd rfl hne
  | cons name more ih =>
      cases more with
      | nil =>
          rw [lookup?_append hdir hne] at he
          exact .entry he
      | cons next rest =>
          obtain ⟨below, hbelow⟩ := kind?_eq_dir.mp (hway [name] (by simp) (by simp))
          have hfind : inside.find? name = some (.dir true below) := by
            rwa [lookup?_append hdir (List.cons_ne_nil name [])] at hbelow
          refine .inside hfind (ih hbelow (by simpa using he) (List.cons_ne_nil next rest) ?_)
          intro before hbefore hless
          simpa using hway (name :: before) (List.cons_prefix_cons.mpr ⟨rfl, hbefore⟩) (by simpa using hless)

/-- **A walk of the disk notes what there is in plain sight**, from the directory that it starts in. -/
theorem mem_walk_iff {root : Path} (h : d.walk root = .ok (base, walked)) (kind : Entry.Kind)
    (hkind : kind.isNoted = true) : names ∈ walked.noted kind ↔
      ∃ inside e, d.lookup? base = some (.dir true inside) ∧ e.kind = kind ∧ inside.Reaches names e ∧
        InSight names := by
  obtain ⟨-, ⟨inside, hdir, rfl⟩ | ⟨hnone, rfl⟩⟩ := walk_eq_ok.mp h
  · rw [Listing.mem_walk_iff (proper_of_lookup? hdir) hkind]
    constructor
    · rintro ⟨⟨e, he, hreach⟩, hsight⟩
      exact ⟨inside, e, hdir, he, hreach, hsight⟩
    · rintro ⟨inside', e, hdir', he, hreach, hsight⟩
      cases hdir.symm.trans hdir'
      exact ⟨⟨e, he, hreach⟩, hsight⟩
  · constructor
    · intro hmem
      unfold Walked.noted at hmem
      split at hmem <;> cases hmem
    · rintro ⟨inside, e, hdir, -⟩
      exact absurd hdir (hnone true inside)

/-- Where a walk of the disk noted something, an entry of that kind stands. -/
theorem kind?_of_mem_walk {root : Path} (h : d.walk root = .ok (base, walked)) (kind : Entry.Kind)
    (hkind : kind.isNoted = true) (hmem : names ∈ walked.noted kind) :
    d.kind? (base ++ names) = some kind ∧ ∀ name ∈ names, Listing.isEntryName name = true := by
  obtain ⟨inside, e, hdir, rfl, hreach, -⟩ := (mem_walk_iff h kind hkind).mp hmem
  obtain ⟨hlookup, hnames⟩ := lookup?_of_reaches hdir hreach
  exact ⟨by rw [kind?, hlookup, Option.map_some], hnames⟩

end Disk

end CodeSweep
