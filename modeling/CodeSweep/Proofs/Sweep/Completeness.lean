import CodeSweep.Proofs.Sweep.Interference
import CodeSweep.Proofs.Workspace.Reach

/-! # No file is left out

A sweep that goes through has one result for every file of its prepared repositories that the codemod
is for (`outcomeOf_complete`). Three derivations have to agree on such a file: the path of the
repository is followed to its directory, the walk comes to the same directory from the one that the
codemod works in, and the filter of the targets knows the repository by the first name on the way.

The walk starts outside of the repositories, so a repository is itself an entry that it may pass over:
one whose own name is hidden, and one in whose place a link stands. Their files have no result although
nothing failed (`outcomeOf_misses`). -/

namespace CodeSweep

/-! ## Paths below a directory -/

namespace Codemod

variable {root : Path} {names other : List String}

theorem components_below (h : ∀ name ∈ names, Listing.isEntryName name = true) :
    (below root names).components = root.components ++ names.map .name := by
  cases names with
  | nil =>
      have hempty : Text.pieces '/' ("/".intercalate []).toList = [[]] := by decide
      rw [below, Path.components_join (by decide) (by simp [Text.pieces]), hempty]
      rfl
  | cons first more =>
      have hslash : ∀ piece ∈ (first :: more).map String.toList, '/' ∉ piece := by
        intro piece hpiece
        obtain ⟨name, hname, rfl⟩ := List.mem_map.mp hpiece
        exact Path.not_mem_of_isEntryName (h name hname)
      have hpieces : Text.pieces '/' ("/".intercalate (first :: more)).toList =
          (first :: more).map String.toList := by
        rw [String.toList_intercalate]
        exact Text.pieces_intercalate (by simp) hslash
      have hmap : ((first :: more).map String.toList).filterMap Path.ofPiece = (first :: more).map .name := by
        rw [List.filterMap_map, ← List.filterMap_eq_map]
        exact List.filterMap_congr fun name hname => Path.ofPiece_name (h name hname)
      have hfirst := Path.ofPiece_name (h first List.mem_cons_self)
      rw [below, Path.components_join (isAbsolute_intercalate (h first List.mem_cons_self)), hpieces, hmap]
      intro hdot
      rw [hpieces, List.map_cons, List.head?_cons, Option.some.injEq] at hdot
      simp [hdot, Path.ofPiece] at hfirst

/-- Files below a directory have the same path only if the same names lead to them. -/
theorem same_below_iff (h : ∀ name ∈ names, Listing.isEntryName name = true)
    (hother : ∀ name ∈ other, Listing.isEntryName name = true) :
    (below root names).same (below root other) = true ↔ names = other := by
  rw [Path.same, beq_iff_eq, components_below h, components_below hother, List.append_cancel_left_eq]
  exact (List.map_injective_iff.mpr fun _ _ => Path.Component.name.inj).eq_iff

/-- The path that a result is about. -/
def pathOf : FileResult → Path
  | .ok done => done.path
  | .error failed => failed.path

/-- How many results are about a path. -/
def resultsFor (path : Path) (results : List FileResult) : Nat :=
  results.countP fun result => (pathOf result).same path

variable {c : Codemod} {o : RunOptions} {d d' : Disk} {results : List FileResult} {base : Location}
  {walked : Walked} {file : List String → File}

theorem pathOf_fateAt {f : File} : pathOf (c.fateAt o root names f) = below root names := by
  unfold fateAt fate
  repeat' split
  all_goals rfl

/-- **A run gives every target one result.** What it says of directories that it could not list is about
other paths. -/
theorem PerFile.resultsFor_target (h : c.PerFile root o d results d' base walked file)
    (hmem : names ∈ c.targets o walked) : resultsFor (below root names) results = 1 := by
  have hfound : ∀ names ∈ c.targets o walked, d.kind? (base ++ names) = some .file ∧
      ∀ name ∈ names, Listing.isEntryName name = true := fun names hnames =>
    Disk.kind?_of_mem_walk h.walk .file rfl (h.inWalkOrder.subset hnames)
  obtain ⟨hkind, hnames⟩ := hfound names hmem
  have hfailed : resultsFor (below root names) (walkFailures root walked) = 0 := by
    refine List.countP_eq_zero.mpr fun result hresult hsame => ?_
    obtain ⟨blocked, hblocked, rfl⟩ := List.mem_map.mp hresult
    obtain ⟨hdir, hentries⟩ := Disk.kind?_of_mem_walk h.walk (.dir false) rfl hblocked
    obtain rfl := (same_below_iff hentries hnames).mp hsame
    -- one place would hold a file and a directory
    rw [hkind] at hdir
    cases hdir
  have htargets : resultsFor (below root names)
      ((c.targets o walked).map fun names => c.fateAt o root names (file names)) = 1 := by
    rw [resultsFor, List.countP_map, ← List.count_eq_one_of_mem h.once hmem, List.count]
    refine List.countP_congr fun other hother => ?_
    rw [Function.comp_apply, pathOf_fateAt, same_below_iff (hfound other hother).2 hnames, beq_iff_eq]
  rw [h.results, resultsFor, List.countP_append]
  exact congrArg₂ (· + ·) hfailed htargets

end Codemod

/-! ## Files of repositories -/

/-- A repository stands in its place in a directory: as an entry that is neither hidden nor a link. -/
structure Repository.InPlace (r : Repository) (d : Disk) (work : Path) : Prop where
  visible : isHidden r.name = false
  unlinked : d.Unlinked work r.name

/-- Names lead to a file of a repository that a codemod is for. -/
structure Codemod.Eligible (c : Codemod) (d : Disk) (r : Repository) (names : List String) : Prop where
  file : ∃ loc, d.Under r.path names loc ∧ d.kind? loc = some .file
  /-- The directories on the way, and the one of the repository, can be listed. -/
  readable : ∀ before loc, before <+: names → before ≠ names → d.Under r.path before loc →
    d.kind? loc = some (.dir true)
  inSight : InSight names
  accepted : c.accepts (below ⟨""⟩ (r.name :: names)) = true
  among : (below ⟨""⟩ (r.name :: names)).isAmong c.extensions = true

namespace Sweep

variable {σ : Type} {w : World σ} {sweep : Sweep} {c : Campaign} {prepared : List Checkout}
  {s : Session σ} {d : Disk} {r : Repository} {names : List String}

/-- The name of a repository that is in its place is that of an entry. -/
theorem isEntryName_of_inPlace (hr : r ∈ Repository.ofSpecs (sweep.selected c) (sweep.workDir c))
    (h : r.InPlace d (sweep.workDir c)) : Listing.isEntryName r.name = true := by
  have hvisible := h.visible
  refine Repository.isEntryName_of_name hr ⟨fun hname => ?_, fun hname => ?_⟩
  all_goals
    rw [hname] at hvisible
    cases hvisible

/-- A file of a repository in its place is found from the directory that the codemod works in. -/
theorem mem_walk_of_eligible {base : Location} {walked : Walked}
    (hr : r ∈ Repository.ofSpecs (sweep.selected c) (sweep.workDir c))
    (hwalk : d.walk (sweep.workDir c) = .ok (base, walked)) (hplace : r.InPlace d (sweep.workDir c))
    (h : c.codemod.Eligible d r names) : r.name :: names ∈ walked.files := by
  obtain ⟨_, ⟨place, hlocate, rfl⟩, hfile⟩ := h.file
  have hunder : ∀ more, d.Under ((sweep.workDir c).child r.name) more (place ++ more) := fun more =>
    ⟨place, (Repository.ofSpecs_spec hr).2 ▸ hlocate, rfl⟩
  have hwork := (Disk.walk_eq_ok.mp hwalk).1
  have hentry : ∀ more, d.kind? base = some (.dir true) ∧ place ++ more = base ++ r.name :: more := by
    intro more
    obtain ⟨base', hopens, hdir, hloc⟩ :=
      Disk.under_child (hunder more) (isEntryName_of_inPlace hr hplace) hplace.unlinked
    obtain rfl := hopens.eq_of_locate hwork
    exact ⟨hdir, hloc⟩
  obtain ⟨hdir, hloc⟩ := hentry names
  obtain ⟨here, hhere⟩ := Disk.kind?_eq_dir.mp hdir
  obtain ⟨e, he, hkind⟩ := Option.map_eq_some_iff.mp (hloc ▸ hfile)
  refine (Disk.mem_walk_iff hwalk .file rfl).mpr ⟨here, e, hhere, hkind, ?_,
    inSight_cons.mpr ⟨hplace.visible, h.inSight⟩⟩
  refine Disk.reaches_of_kind? hhere he (List.cons_ne_nil _ _) fun before hbefore hless => ?_
  -- the first directory on the way is the one of the repository
  rcases List.prefix_cons_iff.mp hbefore with rfl | ⟨more, rfl, hmore⟩
  · rwa [List.append_nil]
  · rw [← (hentry more).2]
    refine h.readable more _ hmore (fun heq => hless (by rw [heq])) ?_
    exact ⟨place, hlocate, rfl⟩

/-- A file of a prepared repository is wanted by the sweep. -/
theorem isPrepared_of_mem {copy : Checkout} (hcopy : copy ∈ prepared)
    (hname : Listing.isEntryName copy.repository.name = true) :
    isPrepared prepared (Codemod.below ⟨""⟩ (copy.repository.name :: names)) = true := by
  rw [isPrepared, Codemod.head_components_below hname, Option.any_some, List.any_eq_true]
  exact ⟨copy, hcopy, beq_self_eq_true _⟩

/-- The prepared repositories of a sweep, read off what it gathers. -/
theorem exists_prepared_of_view {rs : List Repository}
    (h : (sweep.gather w c s).1.toOption.map (·.map (·.repository)) = some rs) :
    ∃ prepared, (sweep.gather w c s).1 = .ok prepared ∧ prepared.map (·.repository) = rs := by
  cases hgather : (sweep.gather w c s).1 with
  | error fault => simp [hgather, Except.toOption] at h
  | ok prepared => exact ⟨prepared, rfl, by simpa [hgather, Except.toOption] using h⟩

/-- A file right in the directory of a repository is for a codemod that is for all files. -/
theorem eligible_of_kind? {c : Codemod} {name : String} {place : Location}
    (haccepts : c.accepts? = none) (hlanguages : c.languages = [])
    (hlocate : d.locate r.path = .ok place) (hdir : d.kind? place = some (.dir true))
    (hfile : d.kind? (place ++ [name]) = some .file) (hname : isHidden name = false) :
    c.Eligible d r [name] := by
  have hextensions : c.extensions = [] := by
    rw [Codemod.extensions, hlanguages]
    rfl
  refine ⟨⟨_, ⟨place, hlocate, rfl⟩, hfile⟩, ?_, ?_, ?_, ?_⟩
  · rintro before loc hbefore hless ⟨place', hlocate', rfl⟩
    cases hlocate.symm.trans hlocate'
    rcases List.prefix_cons_iff.mp hbefore with rfl | ⟨more, rfl, hmore⟩
    · rwa [List.append_nil]
    · exact absurd (congrArg _ (List.prefix_nil.mp hmore)) hless
  · simpa [InSight] using hname
  · simp [Codemod.accepts, haccepts]
  · simp [Path.isAmong, hextensions]

/-- **Every file that the codemod is for is processed.** In a sweep without a fault it has one result,
if its repository was prepared and stands in its place. -/
theorem outcomeOf_complete (w : World σ) (sweep : Sweep) (c : Campaign) (s : Session σ)
    (hfault : (sweep.outcomeOf w c s).1.fault = none) :
    ∃ prepared, (sweep.gather w c s).1 = .ok prepared ∧
      ∀ copy ∈ prepared, copy.repository.InPlace (sweep.gather w c s).2.disk (sweep.workDir c) →
        ∀ names, c.codemod.Eligible (sweep.gather w c s).2.disk copy.repository names →
          Codemod.resultsFor (Codemod.below copy.repository.path names)
            (sweep.outcomeOf w c s).1.results = 1 := by
  obtain ⟨prepared, report, disk, hgather, hrun, houtcome⟩ := outcomeOf_of_no_fault hfault
  obtain ⟨hprepared, -⟩ := gather_spec hgather
  obtain ⟨base, walked, file, hfile⟩ := Codemod.perFile_of_run hrun
  refine ⟨prepared, hgather, fun copy hcopy hplace names h => ?_⟩
  have hr := hprepared.subset (List.mem_map_of_mem hcopy)
  have hname := isEntryName_of_inPlace hr hplace
  have hmem := mem_walk_of_eligible hr hfile.walk hplace h
  have htarget : copy.repository.name :: names ∈ c.codemod.targets (sweep.options prepared) walked :=
    Codemod.mem_targets.mpr ⟨hmem, isPrepared_of_mem hcopy hname, h.accepted, h.among⟩
  have hentries := (Disk.kind?_of_mem_walk hfile.walk .file rfl hmem).2
  have hpath : (Codemod.below (sweep.workDir c) (copy.repository.name :: names)).components =
      (Codemod.below copy.repository.path names).components := by
    rw [Codemod.components_below hentries,
      Codemod.components_below (List.forall_mem_cons.mp hentries).2, (Repository.ofSpecs_spec hr).2,
      Path.components_child_of_entry hname]
    simp
  rw [houtcome]
  show Codemod.resultsFor _ report.results = 1
  rw [← hfile.resultsFor_target htarget]
  simp only [Codemod.resultsFor, Path.same, hpath]

theorem outcomeOf_complete_cluttered :
    (both.outcomeOf settled greetings cluttered).1.fault = none ∧
      ∃ prepared, (both.gather settled greetings cluttered).1 = .ok prepared ∧
        prepared.map (·.repository) = [api, web] ∧ ∀ r ∈ [api, web],
          r.InPlace (both.gather settled greetings cluttered).2.disk (both.workDir greetings) ∧
          greetings.codemod.Eligible (both.gather settled greetings cluttered).2.disk r ["a.txt"] ∧
          Codemod.resultsFor (Codemod.below r.path ["a.txt"])
            (both.outcomeOf settled greetings cluttered).1.results = 1 := by
  obtain ⟨hfault, hrepositories, hwork, hstands⟩ :
      (both.outcomeOf settled greetings cluttered).1.fault.isNone = true ∧
      (both.gather settled greetings cluttered).1.toOption.map (·.map (·.repository)) = some [api, web] ∧
      (both.gather settled greetings cluttered).2.disk.locate (both.workDir greetings) =
        .ok ["ws", "greet"] ∧
      ∀ r ∈ [api, web], isHidden r.name = false ∧
        (both.gather settled greetings cluttered).2.disk.locate r.path = .ok ["ws", "greet", r.name] ∧
        (both.gather settled greetings cluttered).2.disk.kind? ["ws", "greet", r.name] =
          some (.dir true) ∧
        (both.gather settled greetings cluttered).2.disk.kind? ["ws", "greet", r.name, "a.txt"] =
          some .file := by decide +kernel
  have hnone := Option.isNone_iff_eq_none.mp hfault
  obtain ⟨prepared, hgather, hview⟩ := exists_prepared_of_view hrepositories
  obtain ⟨_, hgather', hall⟩ := outcomeOf_complete settled both greetings cluttered hnone
  cases hgather.symm.trans hgather'
  refine ⟨hnone, prepared, hgather, hview, fun r hr => ?_⟩
  obtain ⟨hvisible, hlocate, hdir, hfile⟩ := hstands r hr
  have hplace : r.InPlace (both.gather settled greetings cluttered).2.disk (both.workDir greetings) :=
    ⟨hvisible, Disk.unlinked_of_isDir hwork hdir⟩
  have heligible := eligible_of_kind? (c := greetings.codemod) rfl rfl hlocate hdir hfile (by decide)
  obtain ⟨copy, hcopy, rfl⟩ := List.mem_map.mp (hview ▸ hr)
  exact ⟨hplace, heligible, hall copy hcopy hplace ["a.txt"] heligible⟩

/-! ## Repositories that a walk passes over -/

/-- A repository with a hidden name, and one with a name in plain sight. -/
def outOfSight : List Repository :=
  [{ name := ".github", address := "git@host:acme/.github.git", path := ⟨"/ws/greet/.github"⟩, tags := [] },
    web]

/-- A sweep over the two. -/
def overlooking : Sweep where
  workspace := ⟨"/ws"⟩
  repositories := outOfSight.map fun r => { address := r.address }

/-- A working directory with both repositories, the second one by a link. -/
def tuckedAway : Session Unit where
  disk :=
    { root :=
        .dir "ws" true
          (.dir "greet" true
            (.dir ".github" true (.file "a.txt" { content := .text "hi" } .empty)
              (.link "web" "../store" .empty))
            (.dir "store" true (.file "a.txt" { content := .text "hi" } .empty) .empty)) .empty
      proper := by decide }
  outside := ()

/-- **A sweep without a fault may miss a prepared repository.** Both repositories hold a file that the
codemod is for, and neither has a result. -/
theorem outcomeOf_misses :
    (overlooking.outcomeOf settled greetings tuckedAway).1.fault = none ∧
      ∃ prepared, (overlooking.gather settled greetings tuckedAway).1 = .ok prepared ∧
        prepared.map (·.repository) = outOfSight ∧ ∀ r ∈ outOfSight,
          greetings.codemod.Eligible (overlooking.gather settled greetings tuckedAway).2.disk r
            ["a.txt"] ∧
          Codemod.resultsFor (Codemod.below r.path ["a.txt"])
            (overlooking.outcomeOf settled greetings tuckedAway).1.results = 0 := by
  -- the files are there, behind the link for the second repository
  obtain ⟨hfault, hrepositories, hnothing, hthere⟩ :
      (overlooking.outcomeOf settled greetings tuckedAway).1.fault.isNone = true ∧
      (overlooking.gather settled greetings tuckedAway).1.toOption.map (·.map (·.repository)) =
        some outOfSight ∧
      (∀ r ∈ outOfSight, Codemod.resultsFor (Codemod.below r.path ["a.txt"])
        (overlooking.outcomeOf settled greetings tuckedAway).1.results = 0) ∧
      ∀ r ∈ outOfSight, ∃ place ∈ [["ws", "greet", ".github"], ["ws", "store"]],
        (overlooking.gather settled greetings tuckedAway).2.disk.locate r.path = .ok place ∧
        (overlooking.gather settled greetings tuckedAway).2.disk.kind? place = some (.dir true) ∧
        (overlooking.gather settled greetings tuckedAway).2.disk.kind? (place ++ ["a.txt"]) =
          some .file := by decide +kernel
  obtain ⟨prepared, hgather, hview⟩ := exists_prepared_of_view hrepositories
  refine ⟨Option.isNone_iff_eq_none.mp hfault, prepared, hgather, hview, fun r hr => ⟨?_, hnothing r hr⟩⟩
  obtain ⟨place, -, hlocate, hdir, hfile⟩ := hthere r hr
  exact eligible_of_kind? (c := greetings.codemod) rfl rfl hlocate hdir hfile (by decide)

end Sweep

end CodeSweep
