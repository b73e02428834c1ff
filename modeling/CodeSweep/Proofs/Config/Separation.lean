import CodeSweep.Proofs.Config.Checking
import CodeSweep.Proofs.Workspace.Lexical

/-! # Working directories of their own

Every codemod of a configuration works in the directory of its name in the workspace. A configuration
is accepted when its names are different texts, but it is as paths that they are used, and there they
may still be one directory, lie in each other or lead out of the workspace.

Whether the directories are isolated in every workspace is decided by the names alone: each has to go
down, and none may go down on the way of another (`check_isolates`). Different names of entries do so
(`separate_of_plain`), so the check is enough for them, and not in general (`check_accepts_tangled`).
Directories that are isolated share nothing on a disk without links (`Isolated.keepsApart`). -/

namespace CodeSweep

/-- Working directories are isolated in a workspace: each lies properly inside it, no two have the same
path, and none lies inside another. -/
structure Isolated (workspace : Path) (dirs : List Path) : Prop where
  inside : ∀ dir ∈ dirs, workspace.place <+: dir.place ∧ workspace.place ≠ dir.place
  different : dirs.Pairwise fun a b => a.same b = false
  apart : dirs.Pairwise fun a b => ¬ a.place <+: b.place ∧ ¬ b.place <+: a.place

/-- On a disk, directories share nothing: what is below one is not below another, and all of it lies in
the workspace. -/
structure Disk.KeepsApart (d : Disk) (workspace : Path) (dirs : List Path) : Prop where
  inside : ∀ dir ∈ dirs, ∀ loc, d.locate dir = .ok loc → workspace.place <+: loc
  apart : dirs.Pairwise fun a b => ∀ loc loc', d.locate a = .ok loc → d.locate b = .ok loc' →
    ∀ below below', loc ++ below ≠ loc' ++ below'

/-- Names are separate: each goes down, and none goes down on the way of another. -/
structure Separate (names : List String) : Prop where
  down : ∀ name ∈ names, ∃ first more, Path.descent? ⟨name⟩ = some (first :: more)
  apart : names.Pairwise fun a b => ∀ down down', Path.descent? ⟨a⟩ = some down →
    Path.descent? ⟨b⟩ = some down' → ¬ down <+: down' ∧ ¬ down' <+: down

/-- Where there are no links, isolated directories share nothing. -/
theorem Isolated.keepsApart {d : Disk} {workspace : Path} {dirs : List Path}
    (h : Isolated workspace dirs) (habsolute : ∀ dir ∈ dirs, dir.isAbsolute = true)
    (hplain : ∀ loc target, d.kind? loc ≠ some (.link target)) : d.KeepsApart workspace dirs := by
  constructor
  · intro dir hdir loc hloc
    rw [Disk.locate_of_plain hplain (habsolute dir hdir) hloc]
    exact (h.inside dir hdir).1
  · refine h.apart.imp_of_mem ?_
    rintro a b ha hb ⟨hab, hba⟩ loc loc' hloc hloc' below below' hshared
    rw [Disk.locate_of_plain hplain (habsolute a ha) hloc,
      Disk.locate_of_plain hplain (habsolute b hb) hloc'] at hshared
    -- two places above one entry are one above the other
    rcases List.prefix_or_prefix_of_prefix (List.prefix_append a.place below)
      (hshared ▸ List.prefix_append b.place below') with hprefix | hprefix
    · exact hab hprefix
    · exact hba hprefix

section Names

variable {names : List String} {workspace : Path}

/-- A name that goes down leads to the place that it goes down to. -/
theorem place_of_descent? {name : String} {down : Location} (h : workspace.isAbsolute = true)
    (hdown : Path.descent? ⟨name⟩ = some down) :
    (workspace.child name).place = workspace.place ++ down := by
  rw [Path.place_child (Path.text_ne_of_absolute h)]
  exact Path.resolve_of_descent? hdown

theorem isolated_of_separate (h : Separate names) (habsolute : workspace.isAbsolute = true) :
    Isolated workspace (names.map workspace.child) := by
  have hapart : (names.map workspace.child).Pairwise fun a b =>
      ¬ a.place <+: b.place ∧ ¬ b.place <+: a.place := by
    rw [List.pairwise_map]
    refine h.apart.imp_of_mem ?_
    intro a b ha hb hab
    obtain ⟨first, more, hdown⟩ := h.down a ha
    obtain ⟨first', more', hdown'⟩ := h.down b hb
    rw [place_of_descent? habsolute hdown, place_of_descent? habsolute hdown',
      List.prefix_append_right_inj, List.prefix_append_right_inj]
    exact hab _ _ hdown hdown'
  refine ⟨?_, ?_, hapart⟩
  · intro dir hdir
    obtain ⟨name, hname, rfl⟩ := List.mem_map.mp hdir
    obtain ⟨first, more, hdown⟩ := h.down name hname
    rw [place_of_descent? habsolute hdown]
    exact ⟨List.prefix_append _ _, by simp⟩
  · -- the same path would be at the same place
    apply hapart.imp
    rintro a b ⟨hab, -⟩
    rw [Bool.eq_false_iff]
    intro hsame
    have hplace : a.place = b.place := congrArg (Path.resolve []) (beq_iff_eq.mp hsame)
    exact hab (hplace ▸ List.prefix_rfl)

theorem separate_of_isolated
    (h : ∀ workspace : Path, workspace.isAbsolute = true →
      Isolated workspace (names.map workspace.child)) : Separate names := by
  have hroot := h ⟨"/"⟩ rfl
  have hdescent : ∀ name down, Path.descent? ⟨name⟩ = some down →
      ((⟨"/"⟩ : Path).child name).place = down := fun name down hdown =>
    place_of_descent? rfl hdown
  refine ⟨fun name hname => ?_, ?_⟩
  · match hdown : Path.descent? ⟨name⟩ with
    | none =>
        obtain ⟨workspace, habsolute, houtside⟩ := Path.exists_outside hdown
        exact absurd ((h workspace habsolute).inside _ (List.mem_map_of_mem hname)).1 houtside
    | some [] =>
        -- the name leads back to the workspace itself
        exact absurd (hdescent name [] hdown).symm (hroot.inside _ (List.mem_map_of_mem hname)).2
    | some (first :: more) => exact ⟨first, more, rfl⟩
  · refine (List.pairwise_map.mp hroot.apart).imp ?_
    intro a b hab down down' hdown hdown'
    rwa [hdescent a down hdown, hdescent b down' hdown'] at hab

/-- Names of entries that are different are separate. -/
theorem separate_of_plain (hnames : ∀ name ∈ names, Listing.isEntryName name = true)
    (hnodup : names.Nodup) : Separate names := by
  have hdescent : ∀ name, Listing.isEntryName name = true → Path.descent? ⟨name⟩ = some [name] := by
    intro name hname
    have hchild : (⟨name⟩ : Path) = (⟨""⟩ : Path).child name := by
      simp [Path.child, Path.join, Path.not_isAbsolute (Path.not_mem_of_isEntryName hname)]
    rw [Path.descent?, hchild, Path.components_child_of_entry hname]
    rfl
  refine ⟨fun name hname => ⟨name, [], hdescent name (hnames name hname)⟩, ?_⟩
  refine List.Pairwise.imp_of_mem ?_ hnodup
  intro a b ha hb hne down down' hdown hdown'
  cases (hdescent a (hnames a ha)).symm.trans hdown
  cases (hdescent b (hnames b hb)).symm.trans hdown'
  simp [hne, Ne.symm hne]

end Names

namespace Config

variable {engine : Engine} {config : Config}

/-- The directories that the codemods of a configuration work in. -/
def workDirs (config : Config) (workspace : Path) : List Path :=
  (config.codemods.map (·.name)).map workspace.child

/-- The codemods of a configuration are run under their names. -/
theorem names_campaigns {campaigns : List Campaign} (h : config.campaigns engine = .ok campaigns) :
    campaigns.map (·.codemod.name) = config.codemods.map (·.name) := by
  replace h := runsAs_of_campaigns h
  generalize config.codemods = codemods at h ⊢
  induction h with
  | nil => rfl
  | cons hfirst _ ih => rw [List.map_cons, List.map_cons, hfirst.name_eq, ih]

/-- **When every codemod of an accepted configuration has a working directory of its own.** The
directories that its codemods are run in are isolated in every workspace exactly when their names are
separate, as names of entries are. On a disk without links they then share nothing. -/
theorem check_isolates (engine : Engine) (config : Config) (h : config.check engine = .ok ()) :
    (∀ campaigns (sweep : Sweep), config.campaigns engine = .ok campaigns →
      campaigns.map sweep.workDir = config.workDirs sweep.workspace) ∧
    ((∀ workspace : Path, workspace.isAbsolute = true →
      Isolated workspace (config.workDirs workspace)) ↔ Separate (config.codemods.map (·.name))) ∧
    ((∀ c ∈ config.codemods, Listing.isEntryName c.name = true) →
      Separate (config.codemods.map (·.name))) ∧
    ∀ (workspace : Path) (d : Disk), workspace.isAbsolute = true →
      Isolated workspace (config.workDirs workspace) →
      (∀ loc target, d.kind? loc ≠ some (.link target)) →
        d.KeepsApart workspace (config.workDirs workspace) := by
  refine ⟨fun campaigns sweep hcampaigns => ?_, ⟨separate_of_isolated, ?_⟩, fun hplain => ?_, ?_⟩
  · rw [workDirs, ← names_campaigns hcampaigns, List.map_map]
    rfl
  · intro hseparate workspace habsolute
    exact isolated_of_separate hseparate habsolute
  · exact separate_of_plain (by simpa using hplain) (checkFrom_spec h).1
  · intro workspace d habsolute hisolated hlinks
    apply hisolated.keepsApart _ hlinks
    intro dir hdir
    obtain ⟨name, -, rfl⟩ := List.mem_map.mp hdir
    exact Path.isAbsolute_join_of_absolute habsolute

/-- An engine that knows every query and finds nothing. -/
def idle : Engine where
  compile _ _ := .ok []
  captures _ _ _ := []

/-- Codemods of given names. -/
def naming (names : List String) : Config where
  codemods := names.map fun name => { name, stages := [{ query := "(string) @s", replace := "" }] }

theorem check_isolates_plain :
    (naming ["greet", "shout"]).check idle = .ok () ∧
      Isolated ⟨"/ws"⟩ ((naming ["greet", "shout"]).workDirs ⟨"/ws"⟩) := by
  have hcheck := check_of_toBool idle (naming ["greet", "shout"]) (by decide +kernel)
  obtain ⟨-, hiff, hplain, -⟩ := check_isolates idle (naming ["greet", "shout"]) hcheck
  exact ⟨hcheck, hiff.mpr (hplain (by decide)) ⟨"/ws"⟩ rfl⟩

/-- Four codemods: the second name spells the first, the third lies in it, and the fourth leads out of
the workspace. -/
def tangled : Config := naming ["greet", "greet/", "greet/tools", "../greet"]

/-- **An accepted configuration whose codemods share directories.** -/
theorem check_accepts_tangled :
    tangled.check idle = .ok () ∧
      tangled.workDirs ⟨"/ws"⟩ =
        [⟨"/ws/greet"⟩, ⟨"/ws/greet/"⟩, ⟨"/ws/greet/tools"⟩, ⟨"/ws/../greet"⟩] ∧
      Path.same ⟨"/ws/greet"⟩ ⟨"/ws/greet/"⟩ = true ∧
      Path.place ⟨"/ws/greet"⟩ <+: Path.place ⟨"/ws/greet/tools"⟩ ∧
      ¬ Path.place ⟨"/ws"⟩ <+: Path.place ⟨"/ws/../greet"⟩ ∧
      ¬ Isolated ⟨"/ws"⟩ (tangled.workDirs ⟨"/ws"⟩) := by
  have hcheck := check_of_toBool idle tangled (by decide +kernel)
  have hdirs : tangled.workDirs ⟨"/ws"⟩ =
      [⟨"/ws/greet"⟩, ⟨"/ws/greet/"⟩, ⟨"/ws/greet/tools"⟩, ⟨"/ws/../greet"⟩] := by decide
  have hout : ¬ Path.place ⟨"/ws"⟩ <+: Path.place ⟨"/ws/../greet"⟩ := by decide
  refine ⟨hcheck, hdirs, by decide, by decide, hout, fun h => ?_⟩
  rw [hdirs] at h
  exact hout (h.inside ⟨"/ws/../greet"⟩ (by simp)).1

end Config

end CodeSweep
