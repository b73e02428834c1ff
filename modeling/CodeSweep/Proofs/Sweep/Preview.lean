import CodeSweep.Proofs.Sweep.Rounds

/-! # A dry run previews the real one

A dry sweep and a real one, with the same codemod and from the same session, prepare the same repositories
in the same way. From there on the dry one says and writes nothing, and has the results that the real one
is going to have, file by file; only a write that fails cannot be foreseen (`outcomeOf_previews`).

The real run writes files between those it reads. What it is going to read is nevertheless what the dry
run has read: a write changes no file but the one it is for (`lookup?_of_writeAt`), and no file is a target
twice (`processAll_foresees`). -/

namespace CodeSweep

variable {σ : Type}

/-- A write changes no other file. -/
theorem Disk.lookup?_of_writeAt {d d' : Disk} {loc place : Location} {text : String} {f : File}
    (hwrite : d.writeAt loc text = .ok d') (hne : place ≠ loc) (hplace : d.lookup? place = some (.file f)) :
    d'.lookup? place = some (.file f) := by
  obtain ⟨old, hold⟩ : ∃ old, d.lookup? loc = some (.file old) := by
    unfold writeAt at hwrite
    split at hwrite
    next old hold => exact ⟨old, hold⟩
    next => cases hwrite
    next => cases hwrite
  rw [writeAt_of_file hold] at hwrite
  split at hwrite
  next =>
    cases hwrite
    rw [overwrite, lookup?_mapFiles, hplace]
    simp only [Option.map_some, Entry.mapFiles, if_neg hne]
  next => cases hwrite

namespace Codemod

/-- What a dry run foresees of a file: its result is the one of the real run, and what that run writes is
its content. Only where the write fails has the real run a failure instead. -/
inductive Foresees (loc : Location) (d : Disk) : FileResult → FileResult → Disk → Prop
  | failed {failed} : Foresees loc d (.error failed) (.error failed) d
  | unchanged {done} (h : done.changed = false) : Foresees loc d (.ok done) (.ok done) d
  | written {done d'} (h : done.changed = true) (hwrite : d.writeAt loc done.content = .ok d') :
      Foresees loc d (.ok done) (.ok done) d'
  | unwritten {done cause} (h : done.changed = true) (hwrite : d.writeAt loc done.content = .error cause) :
      Foresees loc d (.ok done)
        (.error { path := done.path, root := done.root, fault := .io cause }) d

/-- What a dry run foresees of the targets, which the real run takes one after the other. -/
inductive ForeseesAll (base : Location) :
    Disk → List (List String) → List FileResult → List FileResult → Disk → Prop
  | nil {d} : ForeseesAll base d [] [] [] d
  | cons {d names rest result result' results results' d' d''}
      (first : Foresees (base ++ names) d result result' d')
      (later : ForeseesAll base d' rest results results' d'') :
      ForeseesAll base d (names :: rest) (result :: results) (result' :: results') d''

/-- What a dry run foresees of a run: the same failures of the walk, and the results of the same targets. -/
inductive Foretells (c : Codemod) (root : Path) (o : RunOptions) (d : Disk) :
    List FileResult → List FileResult → Disk → Prop
  | intro {base walked results results' d'} (walk : d.walk root = .ok (base, walked))
      (targets : ForeseesAll base d (c.targets o walked) results results' d') :
      Foretells c root o d (walkFailures root walked ++ results) (walkFailures root walked ++ results') d'

variable {c : Codemod} {o : RunOptions} {root : Path} {base loc : Location} {d d₀ d' : Disk}
  {names : List String} {targets : List (List String)}

theorem Foresees.lookup?_eq {result result' : FileResult} {place : Location} {f : File}
    (h : Foresees loc d result result' d') (hne : place ≠ loc) (hplace : d.lookup? place = some (.file f)) :
    d'.lookup? place = some (.file f) := by
  cases h with
  | failed => exact hplace
  | unchanged => exact hplace
  | written _ hwrite => exact Disk.lookup?_of_writeAt hwrite hne hplace
  | unwritten => exact hplace

/-- A file that reads the same in both runs is foreseen, and the dry run leaves it alone. -/
theorem process_foresees (root : Path) (h : d₀.readAt (base ++ names) = d.readAt (base ++ names)) :
    Foresees (base ++ names) d (c.process { o with dry := true } root base d₀ names).1
        (c.process { o with dry := false } root base d names).1
        (c.process { o with dry := false } root base d names).2 ∧
      (c.process { o with dry := true } root base d₀ names).2 = d₀ := by
  unfold process transformFile
  rw [h]
  cases d.readAt (base ++ names) with
  | error cause => exact ⟨.failed, rfl⟩
  | ok old =>
      dsimp only
      cases c.transform old (below root names) with
      | error fault => exact ⟨.failed, rfl⟩
      | ok new =>
          dsimp only
          by_cases hsame : new = old
          · simp only [if_pos hsame, and_true]
            exact .unchanged rfl
          · simp only [if_neg hsame]
            cases o.hooks.polish new with
            | error fault => exact ⟨.failed, rfl⟩
            | ok content =>
                -- what the dry run has is what the real one is about to write
                simp only [if_true, Bool.false_eq_true, if_false, and_true]
                cases hwrite : d.writeAt (base ++ names) content with
                | error cause => exact .unwritten rfl hwrite
                | ok written => exact .written rfl hwrite

/-- Targets are foreseen, whatever the real run writes between them. -/
theorem processAll_foresees (root : Path) {file : List String → File} (hnodup : targets.Nodup)
    (hdry : ∀ names ∈ targets, d₀.lookup? (base ++ names) = some (.file (file names)))
    (hreal : ∀ names ∈ targets, d.lookup? (base ++ names) = some (.file (file names))) :
    ForeseesAll base d targets (c.processAll { o with dry := true } root base d₀ targets).1
        (c.processAll { o with dry := false } root base d targets).1
        (c.processAll { o with dry := false } root base d targets).2 ∧
      (c.processAll { o with dry := true } root base d₀ targets).2 = d₀ := by
  induction targets generalizing d with
  | nil => exact ⟨.nil, rfl⟩
  | cons names rest ih =>
      obtain ⟨hnames, hrest⟩ := List.nodup_cons.mp hnodup
      have hread : d₀.readAt (base ++ names) = d.readAt (base ++ names) := by
        rw [Disk.readAt_of_file (hdry names List.mem_cons_self),
          Disk.readAt_of_file (hreal names List.mem_cons_self)]
      obtain ⟨hfirst, hleft⟩ := process_foresees (c := c) (o := o) root hread
      -- the files of the later targets are not touched by the first one
      obtain ⟨hlater, hend⟩ := ih hrest (fun names' hmem => hdry names' (List.mem_cons_of_mem _ hmem))
        fun names' hmem => hfirst.lookup?_eq
          (fun heq => hnames (List.append_cancel_left heq ▸ hmem))
          (hreal names' (List.mem_cons_of_mem _ hmem))
      simp only [processAll, hleft]
      exact ⟨.cons hfirst hlater, hend⟩

/-- A dry run stops where the real one does, and otherwise foretells it and leaves the disk alone. -/
theorem run_foretells (c : Codemod) (root : Path) (o : RunOptions) (d : Disk) :
    (∃ fault, c.run root { o with dry := true } d = .error fault ∧
      c.run root { o with dry := false } d = .error fault) ∨
    ∃ report report' d', c.run root { o with dry := true } d = .ok (report, d) ∧
      c.run root { o with dry := false } d = .ok (report', d') ∧
      c.Foretells root o d report.results report'.results d' := by
  -- what can stop a run comes before anything is written
  have hstops : ∀ fault, c.run root { o with dry := true } d = .error fault ↔
      c.run root { o with dry := false } d = .error fault := by
    intro fault
    rw [run_eq_error_iff, run_eq_error_iff]
  cases hreal : c.run root { o with dry := false } d with
  | error fault => exact .inl ⟨fault, (hstops fault).mpr hreal, rfl⟩
  | ok given =>
      obtain ⟨report', d'⟩ := given
      cases hdry : c.run root { o with dry := true } d with
      | error fault => cases ((hstops fault).mp hdry).symm.trans hreal
      | ok given =>
          obtain ⟨report, d₀⟩ := given
          obtain ⟨base, walked, hwalk, hresults, hleft⟩ := run_eq_ok hdry
          obtain ⟨base', walked', hwalk', hresults', hleft'⟩ := run_eq_ok hreal
          cases hwalk.symm.trans hwalk'
          obtain ⟨hnodup, hfiles⟩ := Disk.walk_files hwalk
          have hsub : (c.targets o walked).Sublist walked.files := List.filter_sublist
          choose! file hfile using fun names hnames => hfiles names (hsub.subset hnames)
          obtain ⟨hall, hend⟩ := processAll_foresees (c := c) (o := o) root
            (hnodup.sublist hsub) hfile hfile
          refine .inr ⟨report, report', d', by rw [hleft.trans hend], rfl, ?_⟩
          rw [hresults, hresults', hleft']
          exact .intro hwalk hall

-- the second file may be read but not written
example :
    (mark.run ⟨"/"⟩ { dry := true } mixed).toOption.map (fun r => (successes r.1.results).map (·.path)) =
        some [⟨"/web/a"⟩, ⟨"/web/b"⟩] ∧
      (mark.run ⟨"/"⟩ {} mixed).toOption.map (fun r => (successes r.1.results).map (·.path)) =
        some [⟨"/web/a"⟩] := by
  decide +kernel

end Codemod

namespace Sweep

variable {w : World σ} {sweep : Sweep} {c : Campaign} {s : Session σ}

/-- How the outcome of a real sweep is foretold by that of a dry one, when preparing found `found` and left
`d`: both stop for the same reason, or both go through. -/
inductive Foretells (sweep : Sweep) (c : Campaign) (found : Except Fault (List Checkout)) (d : Disk) :
    SweepOutcome → SweepOutcome → Prop
  | stopped {fault} : Foretells sweep c found d { fault := some fault } { fault := some fault }
  | through {prepared results results' d' handed handed' publications publications'}
      (hfound : found = .ok prepared)
      (hresults : c.codemod.Foretells (sweep.workDir c) (sweep.options prepared) d results results' d') :
      Foretells sweep c found d { results, publications, handed }
        { results := results', publications := publications', handed := handed' }

/-- What a dry sweep that begins in `s` tells of a real one. Preparing, which is the same in both, finds
`found` and ends in `gathered`. -/
structure Previews (w : World σ) (sweep : Sweep) (c : Campaign) (s : Session σ)
    (found : Except Fault (List Checkout)) (gathered : Session σ)
    (dry real : SweepOutcome × Session σ) : Prop where
  /-- The dry sweep says nothing more, and leaves no more repositories out. -/
  idle : gathered.Quietly dry.2
  disk : dry.2.disk = gathered.disk
  quiet : s.Adds Exchange.Quiet dry.2
  unpublished : dry.1.publications = []
  /-- The real sweep goes on from there, and leaves no more repositories out either. -/
  goesOn : ∃ said, gathered.Leads w said real.2
  reports : real.2.reports = gathered.reports
  foretells : sweep.Foretells c found gathered.disk dry.1 real.1

/-- Until repositories are prepared, nothing is given away. -/
theorem gather_quiet (w : World σ) (sweep : Sweep) (c : Campaign) (s : Session σ) :
    s.Adds Exchange.Quiet (sweep.gather w c s).2 := by
  cases henter : (sweep.enter c s).1 with
  | error cause =>
      rw [gather_of_error henter]
      exact .of_eq rfl
  | ok _ => exact (gather_spec (congrArg Prod.fst (gather_eq_row henter))).2

/-- What a sweep does once repositories are prepared is to publish, which leaves none out; and nothing,
where it is dry. -/
theorem outcomeOf_goesOn (w : World σ) (sweep : Sweep) (c : Campaign) (s : Session σ) :
    ∃ later, Turn.Accounts w (sweep.gather w c s).2 later (sweep.outcomeOf w c s).2 ∧
      (∀ turn ∈ later, turn.outcome = .ok ()) ∧ (sweep.dry = true → later = []) := by
  have hnone : ∀ turn ∈ ([] : List (Turn σ)), turn.outcome = .ok () := by simp
  have hgoes := outcomeOf_goes w sweep c s
  generalize sweep.outcomeOf w c s = ended at hgoes ⊢
  cases hgoes with
  | nowhere henter =>
      rw [gather_of_error henter]
      exact ⟨[], .nothing (.tell rfl), hnone, fun _ => rfl⟩
  | stopped _ hgather =>
      rw [hgather]
      exact ⟨[], .nothing (.tell rfl), hnone, fun _ => rfl⟩
  | through _ hgather hrun =>
      rw [hgather]
      refine ⟨_, ((transformed_accounts hrun).trans (release_accounts w sweep c _ _ _)).tell rfl, ?_, ?_⟩
      · rw [List.nil_append]
        split
        · exact hnone
        · intro turn hturn
          obtain ⟨copy, -, s', rfl⟩ := Turn.exists_of_mem_row hturn
          rfl
      · intro hdry
        rw [List.nil_append, if_pos hdry]

/-- A dry sweep writes and publishes nothing. -/
theorem outcomeOf_of_dry (w : World σ) (sweep : Sweep) (c : Campaign) (s : Session σ)
    (hdry : sweep.dry = true) :
    (sweep.outcomeOf w c s).2.disk = (sweep.gather w c s).2.disk ∧
      (sweep.outcomeOf w c s).1.publications = [] := by
  have hgoes := outcomeOf_goes w sweep c s
  generalize sweep.outcomeOf w c s = ended at hgoes ⊢
  cases hgoes with
  | nowhere henter =>
      rw [gather_of_error henter]
      exact ⟨rfl, rfl⟩
  | stopped _ hgather =>
      rw [hgather]
      exact ⟨rfl, rfl⟩
  | through _ hgather hrun =>
      obtain ⟨_, _, _, hfiles⟩ := Codemod.perFile_of_run hrun
      rw [hgather, release, if_pos hdry]
      exact ⟨hfiles.dry hdry, rfl⟩

/-- The outcome of a dry sweep foretells that of the real one. -/
theorem outcomeOf_foretells (w : World σ) (sweep : Sweep) (c : Campaign) (s : Session σ) :
    sweep.Foretells c (sweep.gather w c s).1 (sweep.gather w c s).2.disk
      (({ sweep with dry := true }).outcomeOf w c s).1 (({ sweep with dry := false }).outcomeOf w c s).1 := by
  cases henter : (sweep.enter c s).1 with
  | error cause =>
      have henters : ∀ b, (({ sweep with dry := b }).enter c s).1 = .error cause := fun _ => henter
      rw [outcomeOf_of_enter_error (henters true), outcomeOf_of_enter_error (henters false)]
      exact .stopped
  | ok _ =>
      obtain ⟨prepared, gathered, hgather⟩ := exists_gathered (w := w) henter
      have hgathers : ∀ b, ({ sweep with dry := b }).gather w c s = (.ok prepared, gathered) :=
        fun _ => hgather
      rw [hgather]
      rcases c.codemod.run_foretells (sweep.workDir c) (sweep.options prepared) gathered.disk with
        ⟨fault, hdry, hreal⟩ | ⟨report, report', d', hdry, hreal, hforetells⟩
      · rw [outcomeOf_of_run_error (hgathers true) hdry, outcomeOf_of_run_error (hgathers false) hreal]
        exact .stopped
      · rw [outcomeOf_of_run_ok (hgathers true) hdry, outcomeOf_of_run_ok (hgathers false) hreal]
        exact .through rfl hforetells

/-- **A dry run previews the real one.** Both prepare alike, whatever the world answers, and leave the same
repositories out. After that the dry one changes and gives away nothing, and the real one has its results,
but for the files that cannot be written. -/
theorem outcomeOf_previews (w : World σ) (sweep : Sweep) (c : Campaign) (s : Session σ) :
    ∃ found gathered, ({ sweep with dry := true }).gather w c s = (found, gathered) ∧
      ({ sweep with dry := false }).gather w c s = (found, gathered) ∧
      sweep.Previews w c s found gathered (({ sweep with dry := true }).outcomeOf w c s)
        (({ sweep with dry := false }).outcomeOf w c s) := by
  have hsame : ∀ b, ({ sweep with dry := b }).gather w c s = sweep.gather w c s := fun _ => rfl
  obtain ⟨earlier, hdry, -, hnone⟩ := outcomeOf_goesOn w { sweep with dry := true } c s
  obtain ⟨later, hreal, hkept, -⟩ := outcomeOf_goesOn w { sweep with dry := false } c s
  obtain ⟨hdisk, hunpublished⟩ := outcomeOf_of_dry w { sweep with dry := true } c s rfl
  have hquiet := gather_quiet w sweep c s
  have hforetells := outcomeOf_foretells w sweep c s
  rw [hsame] at hdry hreal hdisk
  rcases hgather : sweep.gather w c s with ⟨found, gathered⟩
  rw [hgather] at hdry hreal hdisk hquiet hforetells
  have hidle : gathered.Quietly (({ sweep with dry := true }).outcomeOf w c s).2 := by
    rw [hnone rfl] at hdry
    cases hdry with
    | nothing h => exact h
  have hreported : later.flatMap (·.reported) = [] := by
    refine List.flatMap_eq_nil_iff.mpr fun turn hturn => ?_
    rw [Turn.reported, hkept turn hturn]
  refine ⟨found, gathered, (hsame true).trans hgather, (hsame false).trans hgather, ?_⟩
  exact
    { idle := hidle
      disk := hdisk
      quiet := hquiet.trans (.of_eq hidle.transcript)
      unpublished := hunpublished
      goesOn := ⟨_, hreal.leads⟩
      reports := by rw [hreal.reports, hreported, List.append_nil]
      foretells := hforetells }

end Sweep

end CodeSweep
