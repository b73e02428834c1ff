import CodeSweep.Codemod.Run
import CodeSweep.Proofs.Workspace.Tree
import Mathlib.Tactic.Choose

/-! # Every file for itself

A run takes its targets one after the other and writes to the disk between them. Seen from outside it
is nevertheless a map over the targets: what becomes of a file is its `fate`, a function of its path,
its content and its permissions alone, and the tree afterwards is the tree before with the changed files
overwritten.

* `processAll_eq`: taken in any order, targets have their fates and the disk is rewritten by them.
* `run_perFile`: a run fails exactly when it may not begin or its directory cannot be walked; any other
  run gives the failures of the walk, then the fate of every target in walk order. -/

namespace CodeSweep

/-! ## One file -/

/-- Reading a file: it has to be readable, and text. -/
def File.read (f : File) : Except IoFault String :=
  if f.access = .denied then .error .permissionDenied
  else
    match f.content with
    | .text s => .ok s
    | .binary _ => .error .notText

/-- What a file is after a run that gave this result for it: overwritten if it changed and the run is
not dry. -/
def File.after (f : File) (dry : Bool) : FileResult → File
  | .ok done => if done.changed && !dry then { f with content := .text done.content } else f
  | .error _ => f

theorem Disk.readAt_of_file {d : Disk} {loc : Location} {f : File}
    (h : d.lookup? loc = some (.file f)) : d.readAt loc = f.read := by
  rw [readAt, h]
  rfl

namespace Codemod

/-- What becomes of a file. It fails if it cannot be read, transformed, polished or, unless the run is
dry, written. It is changed exactly when the transformed text differs, and its content is then the
polished text. -/
def fate (c : Codemod) (o : RunOptions) (path owner : Path) (f : File) : FileResult :=
  match f.read with
  | .error cause => .error { path, root := owner, fault := .io cause }
  | .ok old =>
    match c.transform old path with
    | .error fault => .error { path, root := owner, fault }
    | .ok new =>
      if new = old then .ok { path, root := owner, old, content := old, changed := false }
      else
        match o.hooks.polish new with
        | .error fault => .error { path, root := owner, fault }
        | .ok content =>
          if o.dry = false ∧ f.access ≠ .full then
            .error { path, root := owner, fault := .io .permissionDenied }
          else .ok { path, root := owner, old, content, changed := true }

/-- The fate of a target, given by its names below the directory of the run. -/
def fateAt (c : Codemod) (o : RunOptions) (root : Path) (names : List String) (f : File) : FileResult :=
  c.fate o (below root names) (rootOf root names) f

/-- What a run over some targets leaves of the file at a location: a target is as its fate says, any
other file stays. -/
def rewrite (c : Codemod) (o : RunOptions) (root : Path) (base : Location)
    (targets : List (List String)) (loc : Location) (f : File) : File :=
  match targets.find? fun names => base ++ names == loc with
  | some names => f.after o.dry (c.fateAt o root names f)
  | none => f

variable {c : Codemod} {o : RunOptions} {root : Path} {base loc : Location} {d : Disk} {f : File}
  {names : List String} {targets : List (List String)}

theorem rewrite_of_mem (h : names ∈ targets) :
    c.rewrite o root base targets (base ++ names) f = f.after o.dry (c.fateAt o root names f) := by
  unfold rewrite
  split
  next names' hfind =>
    have heq : base ++ names' = base ++ names := by simpa using List.find?_some hfind
    rw [List.append_cancel_left heq]
  next hfind =>
    have hne := List.find?_eq_none.mp hfind names h
    simp at hne

theorem rewrite_of_not_mem (h : ∀ names ∈ targets, base ++ names ≠ loc) :
    c.rewrite o root base targets loc f = f := by
  unfold rewrite
  split
  next names hfind =>
    have heq : base ++ names = loc := by simpa using List.find?_some hfind
    exact absurd heq (h names (List.mem_of_find?_eq_some hfind))
  next => rfl

/-- Which targets there are decides, and not their order. -/
theorem rewrite_perm {order : List (List String)} (h : order.Perm targets) :
    c.rewrite o root base order = c.rewrite o root base targets := by
  funext loc f
  by_cases hloc : ∃ names ∈ targets, base ++ names = loc
  · obtain ⟨names, hmem, rfl⟩ := hloc
    rw [rewrite_of_mem hmem, rewrite_of_mem (h.mem_iff.mpr hmem)]
  · have hne : ∀ names ∈ targets, base ++ names ≠ loc := fun names hmem heq => hloc ⟨names, hmem, heq⟩
    rw [rewrite_of_not_mem hne, rewrite_of_not_mem fun names hmem => hne names (h.mem_iff.mp hmem)]

/-- One target after the others: each is rewritten once. -/
theorem rewrite_cons (h : names ∉ targets) :
    c.rewrite o root base targets loc (c.rewrite o root base [names] loc f) =
      c.rewrite o root base (names :: targets) loc f := by
  by_cases heq : base ++ names = loc
  · subst heq
    have hlater : ∀ names' ∈ targets, base ++ names' ≠ base ++ names := by
      intro names' hmem heq
      exact h (List.append_cancel_left heq ▸ hmem)
    rw [rewrite_of_not_mem hlater, rewrite_of_mem List.mem_cons_self, rewrite_of_mem List.mem_cons_self]
  · have hother : ∀ first ∈ [names], base ++ first ≠ loc := by simpa using heq
    rw [rewrite_of_not_mem hother]
    simp [rewrite, heq]

/-- Rewriting one target overwrites the file that it is. -/
theorem mapFiles_rewrite_singleton (h : d.lookup? (base ++ names) = some (.file f)) :
    d.mapFiles (c.rewrite o root base [names]) =
      d.overwrite (base ++ names) (f.after o.dry (c.fateAt o root names f)) := by
  refine Disk.mapFiles_congr fun loc f' hf' => ?_
  split
  next hloc =>
    subst hloc
    cases h.symm.trans hf'
    exact rewrite_of_mem List.mem_cons_self
  next hloc => exact rewrite_of_not_mem (by simpa using Ne.symm hloc)

/-! ## Targets, one after the other -/

/-- A target has its fate, and is overwritten if that says so. -/
theorem process_eq (h : d.lookup? (base ++ names) = some (.file f)) :
    c.process o root base d names =
      (c.fateAt o root names f,
        d.overwrite (base ++ names) (f.after o.dry (c.fateAt o root names f))) := by
  have hself := Disk.overwrite_self h
  unfold process transformFile fateAt fate
  rw [Disk.readAt_of_file h]
  cases f.read with
  | error cause => simp [File.after, hself]
  | ok old =>
      dsimp only
      cases c.transform old (below root names) with
      | error fault => simp [File.after, hself]
      | ok new =>
          by_cases hsame : new = old
          · simp [File.after, hsame, hself]
          · simp only [if_neg hsame]
            cases o.hooks.polish new with
            | error fault => simp [File.after, hself]
            | ok content =>
                -- the one case in which something may be written
                simp only [Disk.writeAt_of_file h]
                cases o.dry with
                | true => simp [File.after, hself]
                | false => by_cases hfull : f.access = .full <;> simp [File.after, hfull, hself]

/-- **Targets in any order have their fates.** What was written for one target is not seen by another,
and the tree afterwards is rewritten by all of them. -/
theorem processAll_eq {order : List (List String)} {file : List String → File} (hnodup : order.Nodup)
    (hfile : ∀ names ∈ order, d.lookup? (base ++ names) = some (.file (file names))) :
    c.processAll o root base d order =
      (order.map fun names => c.fateAt o root names (file names),
        d.mapFiles (c.rewrite o root base order)) := by
  induction order generalizing d with
  | nil =>
      have hnone : d.mapFiles (c.rewrite o root base []) = d := Disk.mapFiles_eq_self fun _ _ _ => rfl
      rw [processAll, hnone, List.map_nil]
  | cons names rest ih =>
      obtain ⟨hnames, hrest⟩ := List.nodup_cons.mp hnodup
      have hfirst := hfile names List.mem_cons_self
      -- the files of the later targets are not touched by the first one
      have hlater : ∀ names' ∈ rest,
          (d.mapFiles (c.rewrite o root base [names])).lookup? (base ++ names') =
            some (.file (file names')) := by
        intro names' hmem
        have hne : ∀ first ∈ [names], base ++ first ≠ base ++ names' := by
          intro first hfirst heq
          rw [List.mem_singleton.mp hfirst] at heq
          exact hnames (List.append_cancel_left heq ▸ hmem)
        rw [Disk.lookup?_mapFiles, hfile names' (List.mem_cons_of_mem _ hmem)]
        simp only [Option.map_some, Entry.mapFiles, rewrite_of_not_mem hne]
      rw [processAll, process_eq hfirst, ← mapFiles_rewrite_singleton hfirst]
      dsimp only
      rw [ih hrest hlater, Disk.mapFiles_mapFiles]
      simp only [rewrite_cons hnames, List.map_cons]

/-! ## Runs -/

/-- A run is a map over the files of the tree. `file` are the files that the targets are at the
beginning. -/
structure PerFile (c : Codemod) (root : Path) (o : RunOptions) (d : Disk) (results : List FileResult)
    (d' : Disk) (base : Location) (walked : Walked) (file : List String → File) : Prop where
  walk : d.walk root = .ok (base, walked)
  /-- A target is a file that was found and that the caller, the codemod and its extensions accept. -/
  target : ∀ names, names ∈ c.targets o walked ↔ names ∈ walked.files ∧
    o.hooks.accepts (below ⟨""⟩ names) = true ∧ c.accepts (below ⟨""⟩ names) = true ∧
    (below ⟨""⟩ names).isAmong c.extensions = true
  inWalkOrder : (c.targets o walked).Sublist walked.files
  once : (c.targets o walked).Nodup
  files : ∀ names ∈ c.targets o walked, d.lookup? (base ++ names) = some (.file (file names))
  /-- The walk's failures, then what becomes of each target. -/
  results : results = walkFailures root walked ++
    (c.targets o walked).map fun names => c.fateAt o root names (file names)
  /-- All else in the tree stays as it is. -/
  tree : d' = d.mapFiles (c.rewrite o root base (c.targets o walked))
  dry : o.dry = true → d' = d
  anyOrder : ∀ order, order.Perm (c.targets o walked) → c.processAll o root base d order =
    (order.map fun names => c.fateAt o root names (file names), d')

theorem after_of_dry {result : FileResult} : f.after true result = f := by
  cases result <;> simp [File.after]

theorem rewrite_of_dry (h : o.dry = true) : c.rewrite o root base targets loc f = f := by
  unfold rewrite
  split
  · rw [h, after_of_dry]
  · rfl

theorem mem_targets {walked : Walked} : names ∈ c.targets o walked ↔ names ∈ walked.files ∧
    o.hooks.accepts (below ⟨""⟩ names) = true ∧ c.accepts (below ⟨""⟩ names) = true ∧
    (below ⟨""⟩ names).isAmong c.extensions = true := by
  simp [targets, and_assoc]

/-- A run fails exactly when it may not begin or its directory cannot be walked. -/
theorem run_eq_error_iff {fault : Fault} : c.run root o d = .error fault ↔
    o.hooks.before c = .error fault ∨
      o.hooks.before c = .ok () ∧ d.walk root = .error fault := by
  unfold run
  cases o.hooks.before c with
  | error cause => simp
  | ok u =>
      cases d.walk root with
      | error cause => simp
      | ok found =>
          obtain ⟨base, walked⟩ := found
          dsimp only
          cases c.targets o walked <;> simp

/-- What a run gives: the walk's failures, and the targets one after the other. -/
theorem run_eq_ok {report : RunReport} {d' : Disk} (h : c.run root o d = .ok (report, d')) :
    ∃ base walked, d.walk root = .ok (base, walked) ∧
      report.results = walkFailures root walked ++
        (c.processAll o root base d (c.targets o walked)).1 ∧
      d' = (c.processAll o root base d (c.targets o walked)).2 := by
  unfold run at h
  split at h
  next => cases h
  next =>
    split at h
    next => cases h
    next base walked hwalk =>
      refine ⟨base, walked, hwalk, ?_⟩
      dsimp only at h
      split at h
      next hnone =>
        cases h
        simp [hnone, processAll]
      next first more hsome =>
        cases h
        simp [hsome]

/-- A run that goes through gives every target the fate that its own file has. -/
theorem perFile_of_run {report : RunReport} {d' : Disk} (h : c.run root o d = .ok (report, d')) :
    ∃ base walked file, c.PerFile root o d report.results d' base walked file := by
  obtain ⟨base, walked, hwalk, hresults, rfl⟩ := run_eq_ok h
  obtain ⟨hnodup, hfiles⟩ := Disk.walk_files hwalk
  have hsub : (c.targets o walked).Sublist walked.files := List.filter_sublist
  have honce : (c.targets o walked).Nodup := hnodup.sublist hsub
  choose! file hfile using fun names hnames => hfiles names (hsub.subset hnames)
  have hall : c.processAll o root base d (c.targets o walked) = _ := processAll_eq honce hfile
  refine ⟨base, walked, file, hwalk, fun _ => mem_targets, hsub, honce, hfile, ?_, ?_, ?_, ?_⟩
  · rw [hresults, hall]
  · rw [hall]
  · intro hdry
    rw [hall]
    exact Disk.mapFiles_eq_self fun _ _ _ => rewrite_of_dry hdry
  · intro order hperm
    rw [hall, ← rewrite_perm hperm]
    exact processAll_eq (hperm.nodup_iff.mpr honce) fun names hmem => hfile names (hperm.mem_iff.mp hmem)

/-- A run that may begin and finds its directory goes through. -/
theorem exists_perFile {walked : Walked} (hbefore : o.hooks.before c = .ok ())
    (hwalk : d.walk root = .ok (base, walked)) :
    ∃ report d' file, c.run root o d = .ok (report, d') ∧
      c.PerFile root o d report.results d' base walked file := by
  cases hrun : c.run root o d with
  | error fault =>
      rcases run_eq_error_iff.mp hrun with hrefused | ⟨-, hnowhere⟩
      · rw [hbefore] at hrefused
        cases hrefused
      · rw [hwalk] at hnowhere
        cases hnowhere
  | ok given =>
      obtain ⟨report, d'⟩ := given
      obtain ⟨base', walked', file, hfile⟩ := perFile_of_run hrun
      cases hwalk.symm.trans hfile.walk
      exact ⟨report, d', file, rfl, hfile⟩

/-- **A run is a map over its targets, whatever their order.** It fails exactly when it may not begin
or its directory cannot be walked; otherwise every target has the fate that its own file has. -/
theorem run_perFile (c : Codemod) (root : Path) (o : RunOptions) (d : Disk) :
    (∀ fault, c.run root o d = .error fault ↔ o.hooks.before c = .error fault ∨
      o.hooks.before c = .ok () ∧ d.walk root = .error fault) ∧
    ∀ report d', c.run root o d = .ok (report, d') →
      ∃ base walked file, c.PerFile root o d report.results d' base walked file :=
  ⟨fun _ => run_eq_error_iff, fun _ _ h => perFile_of_run h⟩

/-- Adds a mark to every file. -/
def mark : Codemod where
  name := "mark"
  languages := []
  transform text _ := .ok (text ++ "!")

/-- A repository with a file to change, one that may only be read, one that may not even be read, and
a hidden one. -/
def mixed : Disk where
  root :=
    .dir "web" true
      (.file ".env" { content := .text "" }
        (.file "a" { content := .text "hi" }
          (.file "b" { content := .text "hi", access := .readOnly }
            (.file "c" { content := .text "hi", access := .denied } .empty)))) .empty
  proper := by decide

theorem run_perFile_mixed :
    ∃ report d', mark.run ⟨"/"⟩ {} mixed = .ok (report, d') ∧
      successes report.results = [⟨⟨"/web/a"⟩, ⟨"/web"⟩, "hi", "hi!", true⟩] ∧
      (failures report.results).map (·.path) = [⟨"/web/b"⟩, ⟨"/web/c"⟩] ∧
      ∃ base walked file, mark.PerFile ⟨"/"⟩ {} mixed report.results d' base walked file := by
  have hview : (mark.run ⟨"/"⟩ {} mixed).toOption.map
      (fun r => (successes r.1.results, (failures r.1.results).map (·.path))) =
        some ([⟨⟨"/web/a"⟩, ⟨"/web"⟩, "hi", "hi!", true⟩], [⟨"/web/b"⟩, ⟨"/web/c"⟩]) := by decide +kernel
  cases hrun : mark.run ⟨"/"⟩ {} mixed with
  | error fault =>
      rw [hrun] at hview
      cases hview
  | ok given =>
      obtain ⟨report, d'⟩ := given
      rw [hrun] at hview
      obtain ⟨hdone, hfailed⟩ := Prod.mk.inj (Option.some.inj hview)
      exact ⟨report, d', rfl, hdone, hfailed, (run_perFile mark ⟨"/"⟩ {} mixed).2 report d' hrun⟩

end Codemod

end CodeSweep
