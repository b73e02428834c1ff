import CodeSweep.Proofs.Codemod.PerFile

/-! # What a run tells

A run gives its results at the end and tells of them on the way. The two go together: from the results
follows what is told, one event or none for each of them (`Recount`),

    result of a target     event
    failed                 `fileFailed`, with its path and fault
    changed                `fileTransformed`, with whether it was written
    unchanged              none

so the events can be counted instead of the results (`Recount.countP_failure`, `Recount.countP_change`).
What is told is also true of the disk: a file that is said to be written holds the new text afterwards
(`Reports.written`). `run_reports` says this of whole runs. A run that cannot begin tells nothing. -/

namespace CodeSweep

namespace Event

/-- Whether an event tells of a file or directory that failed. -/
def isFailure : Event → Bool
  | .fileFailed .. => true
  | _ => false

/-- Whether an event tells of a file that changed. -/
def isChange : Event → Bool
  | .fileTransformed .. => true
  | _ => false

end Event

namespace Codemod

/-- The events tell of the results, in their order. -/
inductive Recount (name : String) (dry : Bool) : List FileResult → List Event → Prop
  | nil : Recount name dry [] []
  | failed {failed results events} (rest : Recount name dry results events) :
      Recount name dry (.error failed :: results)
        (.fileFailed name failed.path failed.fault :: events)
  | changed {done results events} (h : done.changed = true) (rest : Recount name dry results events) :
      Recount name dry (.ok done :: results) (.fileTransformed name done.path (!dry) :: events)
  | unchanged {done results events} (h : done.changed = false)
      (rest : Recount name dry results events) : Recount name dry (.ok done :: results) events

variable {c : Codemod} {o : RunOptions} {root : Path} {base : Location} {d d' : Disk} {walked : Walked}
  {report : RunReport} {file : List String → File} {name : String} {dry : Bool}
  {results : List FileResult} {events : List Event}

/-! ## Results and events -/

theorem recount_eventOf (c : Codemod) (o : RunOptions) (results : List FileResult) :
    Recount c.name o.dry results (results.filterMap (c.eventOf o)) := by
  induction results with
  | nil => exact .nil
  | cons result rest ih =>
      cases result with
      | error failed => exact .failed ih
      | ok done =>
          cases hdone : done.changed with
          | true =>
              have hevent : c.eventOf o (.ok done) = some (.fileTransformed c.name done.path (!o.dry)) := by
                simp [eventOf, hdone]
              rw [List.filterMap_cons_some hevent]
              exact .changed hdone ih
          | false =>
              have hevent : c.eventOf o (.ok done) = none := by simp [eventOf, hdone]
              rw [List.filterMap_cons_none hevent]
              exact .unchanged hdone ih

theorem Recount.countP_failure (h : Recount name dry results events) :
    events.countP (·.isFailure) = (failures results).length := by
  induction h with
  | nil => rfl
  | @failed failed results events _ ih =>
      show (Event.fileFailed name failed.path failed.fault :: events).countP _ =
        (failures results).length + 1
      rw [List.countP_cons_of_pos rfl, ih]
  | changed _ _ ih =>
      rw [List.countP_cons_of_neg (by simp [Event.isFailure])]
      exact ih
  | unchanged _ _ ih => exact ih

theorem Recount.countP_change (h : Recount name dry results events) :
    events.countP (·.isChange) = (successes results).countP (·.changed) := by
  induction h with
  | nil => rfl
  | failed _ ih =>
      rw [List.countP_cons_of_neg (by simp [Event.isChange])]
      exact ih
  | @changed done results events hdone _ ih =>
      show (Event.fileTransformed name done.path (!dry) :: events).countP _ =
        (done :: successes results).countP _
      rw [List.countP_cons_of_pos rfl, List.countP_cons_of_pos hdone, ih]
  | @unchanged done results events hdone _ ih =>
      show events.countP _ = (done :: successes results).countP _
      rw [List.countP_cons_of_neg (by simp [hdone]), ih]

/-- Only a changed file is told to be transformed, and as the run treats all of them. -/
theorem Recount.exists_changed (h : Recount name dry results events) {codemod : String} {path : Path}
    {written : Bool} (hmem : .fileTransformed codemod path written ∈ events) :
    codemod = name ∧ written = !dry ∧
      ∃ done, .ok done ∈ results ∧ done.changed = true ∧ done.path = path := by
  induction h with
  | nil => cases hmem
  | failed _ ih =>
      rcases List.mem_cons.mp hmem with heq | hmem
      · cases heq
      · obtain ⟨hname, hwritten, done, hdone, hrest⟩ := ih hmem
        exact ⟨hname, hwritten, done, List.mem_cons_of_mem _ hdone, hrest⟩
  | @changed first _ _ hfirst _ ih =>
      rcases List.mem_cons.mp hmem with heq | hmem
      · cases heq
        exact ⟨rfl, rfl, first, List.mem_cons_self, hfirst, rfl⟩
      · obtain ⟨hname, hwritten, done, hdone, hrest⟩ := ih hmem
        exact ⟨hname, hwritten, done, List.mem_cons_of_mem _ hdone, hrest⟩
  | unchanged _ _ ih =>
      obtain ⟨hname, hwritten, done, hdone, hrest⟩ := ih hmem
      exact ⟨hname, hwritten, done, List.mem_cons_of_mem _ hdone, hrest⟩

/-! ## Runs -/

/-- What is told of an entry that the walk cannot read. -/
def unreadable (c : Codemod) (root : Path) (names : List String) : Event :=
  .fileFailed c.name (below root names) (.walk (below root names) .permissionDenied)

/-- All that is told of targets, given what is told of each of them: first how many there are, and last
that this was all. Without targets it is nothing. -/
def recital (c : Codemod) (targets : List (List String)) (told : List Event) : List Event :=
  if targets = [] then []
  else .targetsFound c.name targets.length :: (told ++ [.codemodFinished c.name])

/-- A run tells what it does. `file` are the files that the targets are at the beginning. -/
structure Reports (c : Codemod) (root : Path) (o : RunOptions) (base : Location) (walked : Walked)
    (file : List String → File) (report : RunReport) (d' : Disk) : Prop where
  /-- The failures of the walk, and then what becomes of each target. -/
  inOrder : ∃ told, Recount c.name o.dry
      ((c.targets o walked).map fun names => c.fateAt o root names (file names)) told ∧
    report.events = walked.failed.map (c.unreadable root) ++ c.recital (c.targets o walked) told
  failures : report.events.countP (·.isFailure) = (failures report.results).length
  changes : report.events.countP (·.isChange) = (successes report.results).countP (·.changed)
  /-- A file that is told to be written holds the text that its result gives. -/
  written : ∀ codemod path, .fileTransformed codemod path true ∈ report.events →
    ∃ names ∈ c.targets o walked, ∃ done, c.fateAt o root names (file names) = .ok done ∧
      done.path = path ∧
      d'.lookup? (base ++ names) = some (.file { file names with content := .text done.content })
  /-- Without targets nobody is told of finished files. -/
  idle : c.targets o walked = [] → report.handed = []

/-- What a run with logging tells, by its results. -/
theorem events_of_run (h : c.run root o d = .ok (report, d')) (hlog : o.log = true)
    (hwalk : d.walk root = .ok (base, walked)) :
    report.events = (walkFailures root walked).filterMap (c.eventOf o) ++
        c.recital (c.targets o walked)
          ((c.processAll o root base d (c.targets o walked)).1.filterMap (c.eventOf o)) ∧
      (c.targets o walked = [] → report.handed = []) := by
  unfold run at h
  split at h
  next => cases h
  next =>
    rw [hwalk] at h
    dsimp only at h
    split at h
    next hnone =>
      cases h
      simp [recital, hnone, hlog]
    next first more hsome =>
      cases h
      simp [recital, hsome, hlog]

theorem filterMap_walkFailures (c : Codemod) (o : RunOptions) (root : Path) (walked : Walked) :
    (walkFailures root walked).filterMap (c.eventOf o) = walked.failed.map (c.unreadable root) := by
  rw [walkFailures, List.filterMap_map, ← List.filterMap_eq_map]
  rfl

theorem mem_recital {targets : List (List String)} {told : List Event} {event : Event}
    (h : event ∈ c.recital targets told) :
    event ∈ told ∨ event = .targetsFound c.name targets.length ∨ event = .codemodFinished c.name := by
  unfold recital at h
  split at h
  next => cases h
  next =>
    rcases List.mem_cons.mp h with hfound | h
    · exact .inr (.inl hfound)
    · rcases List.mem_append.mp h with htold | hfinished
      · exact .inl htold
      · exact .inr (.inr (List.mem_singleton.mp hfinished))

/-- How many targets there are, and the end, count neither as failures nor as changes. -/
theorem countP_recital {p : Event → Bool} {targets : List (List String)} {told : List Event}
    (hfound : p (.targetsFound c.name targets.length) = false)
    (hfinished : p (.codemodFinished c.name) = false) (hnone : targets = [] → told = []) :
    (c.recital targets told).countP p = told.countP p := by
  unfold recital
  split
  next htargets => rw [hnone htargets]
  next =>
    rw [List.countP_cons_of_neg (by simp [hfound]), List.countP_append,
      List.countP_cons_of_neg (by simp [hfinished]), List.countP_nil, Nat.add_zero]

/-- The results of a run have one recount: that of the walk's failures, then that of the targets. -/
theorem exists_recount (h : c.run root o d = .ok (report, d')) (hlog : o.log = true)
    (hrun : c.PerFile root o d report.results d' base walked file) :
    ∃ told, Recount c.name o.dry
        ((c.targets o walked).map fun names => c.fateAt o root names (file names)) told ∧
      Recount c.name o.dry report.results (walked.failed.map (c.unreadable root) ++ told) ∧
      report.events = walked.failed.map (c.unreadable root) ++ c.recital (c.targets o walked) told := by
  have htold := recount_eventOf c o
    ((c.targets o walked).map fun names => c.fateAt o root names (file names))
  refine ⟨_, htold, ?_, ?_⟩
  · rw [hrun.results, ← filterMap_walkFailures c o, ← List.filterMap_append]
    exact recount_eventOf c o _
  · obtain ⟨hevents, -⟩ := events_of_run h hlog hrun.walk
    rw [hevents, hrun.anyOrder _ (List.Perm.refl _), filterMap_walkFailures]

/-- A target that its fate says is changed is overwritten, unless the run is dry. -/
theorem lookup?_of_changed {names : List String} {done : FileDone}
    (hrun : c.PerFile root o d results d' base walked file) (hdry : o.dry = false)
    (hmem : names ∈ c.targets o walked) (hfate : c.fateAt o root names (file names) = .ok done)
    (hchanged : done.changed = true) :
    d'.lookup? (base ++ names) = some (.file { file names with content := .text done.content }) := by
  have hafter : (file names).after o.dry (.ok done) = { file names with content := .text done.content } := by
    simp [File.after, hchanged, hdry]
  rw [hrun.tree, Disk.lookup?_mapFiles, hrun.files names hmem, Option.map_some, Entry.mapFiles,
    rewrite_of_mem hmem, hfate, hafter]

theorem written_of_told {codemod : String} {path : Path} {told : List Event}
    (hrun : c.PerFile root o d results d' base walked file)
    (htold : Recount c.name o.dry
      ((c.targets o walked).map fun names => c.fateAt o root names (file names)) told)
    (hmem : .fileTransformed codemod path true ∈ told) :
    ∃ names ∈ c.targets o walked, ∃ done, c.fateAt o root names (file names) = .ok done ∧
      done.path = path ∧
      d'.lookup? (base ++ names) = some (.file { file names with content := .text done.content }) := by
  obtain ⟨-, hwritten, done, hdone, hchanged, hpath⟩ := htold.exists_changed hmem
  obtain ⟨names, hnames, hfate⟩ := List.mem_map.mp hdone
  have hdry : o.dry = false := by simpa using hwritten.symm
  exact ⟨names, hnames, done, hfate, hpath, lookup?_of_changed hrun hdry hnames hfate hchanged⟩

theorem reports_of_run (h : c.run root o d = .ok (report, d')) (hlog : o.log = true)
    (hrun : c.PerFile root o d report.results d' base walked file) :
    c.Reports root o base walked file report d' := by
  obtain ⟨told, htold, hall, hevents⟩ := exists_recount h hlog hrun
  have hnone : c.targets o walked = [] → told = [] := by
    intro hnone
    rw [hnone] at htold
    cases htold
    rfl
  refine ⟨⟨told, htold, hevents⟩, ?_, ?_, ?_, (events_of_run h hlog hrun.walk).2⟩
  · rw [← hall.countP_failure, hevents, List.countP_append, List.countP_append,
      countP_recital rfl rfl hnone]
  · rw [← hall.countP_change, hevents, List.countP_append, List.countP_append,
      countP_recital rfl rfl hnone]
  · intro codemod path hmem
    rw [hevents] at hmem
    rcases List.mem_append.mp hmem with hearly | hlate
    -- the walk tells of failures only
    · obtain ⟨names, -, heq⟩ := List.mem_map.mp hearly
      cases heq
    · rcases mem_recital hlate with hmem | heq | heq
      · exact written_of_told hrun htold hmem
      · cases heq
      · cases heq

/-- **What a run tells is what it does.** A run with logging that goes through tells of the failures of its
walk and of its targets, in their order; one that does not adds nothing to what was told before it. -/
theorem run_reports (c : Codemod) (root : Path) (o : RunOptions) (d : Disk) (hlog : o.log = true) :
    (∀ report d', c.run root o d = .ok (report, d') → ∃ base walked file,
      c.PerFile root o d report.results d' base walked file ∧
        c.Reports root o base walked file report d') ∧
    ∀ fault, c.run root o d = .error fault → ∀ (before : Series) (rest : List Codemod),
      (runAll root o before d (c :: rest)).1.events = before.events := by
  constructor
  · intro report d' h
    obtain ⟨base, walked, file, hrun⟩ := perFile_of_run h
    exact ⟨base, walked, file, hrun, reports_of_run h hlog hrun⟩
  · intro fault h before rest
    rw [runAll, h]

/-- A run in which one file changes and two fail, and after it one that cannot begin. -/
theorem run_reports_mixed :
    ∃ report d', mark.run ⟨"/"⟩ {} mixed = .ok (report, d') ∧
      report.events.map (fun e => (e.trace.message, e.trace.fields.lookup "path")) =
        [("targeting 3 files to transform", none), ("transformed file", some "/web/a"),
          ("failed to transform file", some "/web/b"), ("failed to transform file", some "/web/c"),
          ("finished codemod in Nms", none)] ∧
      (∃ base walked file, mark.PerFile ⟨"/"⟩ {} mixed report.results d' base walked file ∧
        mark.Reports ⟨"/"⟩ {} base walked file report d') ∧
      ∃ fault, mark.run ⟨"/docs"⟩ {} mixed = .error fault ∧
        (runAll ⟨"/docs"⟩ {} { events := report.events } mixed [mark]).1.events = report.events := by
  have hview : (mark.run ⟨"/"⟩ {} mixed).toOption.map
      (fun r => r.1.events.map fun e => (e.trace.message, e.trace.fields.lookup "path")) =
        some [("targeting 3 files to transform", none), ("transformed file", some "/web/a"),
          ("failed to transform file", some "/web/b"), ("failed to transform file", some "/web/c"),
          ("finished codemod in Nms", none)] := by decide +kernel
  have hnowhere : (mark.run ⟨"/docs"⟩ {} mixed).toOption.isNone = true := by decide +kernel
  cases hrun : mark.run ⟨"/"⟩ {} mixed with
  | error fault =>
      rw [hrun] at hview
      cases hview
  | ok given =>
      obtain ⟨report, d'⟩ := given
      rw [hrun] at hview
      refine ⟨report, d', rfl, Option.some.inj hview,
        (run_reports mark ⟨"/"⟩ {} mixed rfl).1 report d' hrun, ?_⟩
      cases hrun' : mark.run ⟨"/docs"⟩ {} mixed with
      | error fault =>
          exact ⟨fault, rfl, (run_reports mark ⟨"/docs"⟩ {} mixed rfl).2 fault hrun' _ []⟩
      | ok given =>
          rw [hrun'] at hnowhere
          cases hnowhere

end Codemod

end CodeSweep
