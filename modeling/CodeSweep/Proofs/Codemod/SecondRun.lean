import CodeSweep.Proofs.Codemod.PerFile
import CodeSweep.Proofs.Workspace.Follow

/-! # A second run is quiet

Some codemods have nothing to add to what they made themselves. Run twice over the same directory, such
a codemod changes files the first time only.

The argument goes file by file, since a run is a map over its targets. A file that went through holds
what the codemod made of it and is left alone from then on; one that failed was not touched and fails
again (`fate_after`). What is written shows neither in where paths lead nor in what a walk finds, so both
runs have the same targets (`run_again_quiet`). -/

namespace CodeSweep

namespace Codemod

/-- Whether a codemod leaves alone what it made of a file at the same path. -/
def Idempotent (c : Codemod) : Prop :=
  ∀ text path new, c.transform text path = .ok new → c.transform new path = .ok new

/-- What a second run gives for a file, after what the first one gave: a file that went through is
unchanged from then on, one that failed fails for the same reason. -/
def settled : FileResult → FileResult
  | .ok done => .ok { done with old := done.content, changed := false }
  | .error failed => .error failed

variable {c : Codemod} {o : RunOptions} {root : Path} {base loc : Location} {d d' : Disk} {f : File}
  {names : List String} {targets : List (List String)}

/-! ## One file -/

theorem successes_settled (results : List FileResult) : successes (results.map settled) =
    (successes results).map fun done => { done with old := done.content, changed := false } := by
  rw [successes, successes, List.filterMap_map, List.map_filterMap]
  apply List.filterMap_congr
  rintro (failed | done) _ <;> rfl

theorem failures_settled (results : List FileResult) :
    failures (results.map settled) = failures results := by
  rw [failures, failures, List.filterMap_map]
  apply List.filterMap_congr
  rintro (failed | done) _ <;> rfl

theorem after_settled (dry : Bool) (result : FileResult) : f.after dry (settled result) = f := by
  cases result <;> simp [settled, File.after]

section Twice

variable (hdry : o.dry = false) (hplain : o.hooks.polish? = none) (hidem : c.Idempotent)

include hdry hplain hidem

/-- What becomes of a file that went through a run already. -/
theorem fate_after (path owner : Path) (f : File) :
    c.fate o path owner (f.after o.dry (c.fate o path owner f)) = settled (c.fate o path owner f) := by
  have hpolish : ∀ text, o.hooks.polish text = .ok text := by
    intro text
    rw [Hooks.polish, hplain]
  -- a file that is not written has the same fate again
  have hagain : ∀ result, c.fate o path owner f = result → f.after o.dry result = f →
      settled result = result →
      c.fate o path owner (f.after o.dry (c.fate o path owner f)) =
        settled (c.fate o path owner f) := by
    intro result hfate hsame hsettled
    rw [hfate, hsame, hsettled, hfate]
  cases hread : f.read with
  | error cause =>
      apply hagain (.error { path, root := owner, fault := .io cause }) _ rfl rfl
      simp only [fate, hread]
  | ok old =>
      cases htransform : c.transform old path with
      | error fault =>
          apply hagain (.error { path, root := owner, fault }) _ rfl rfl
          simp only [fate, hread, htransform]
      | ok new =>
          by_cases hsame : new = old
          · apply hagain (.ok { path, root := owner, old, content := old, changed := false }) _ rfl rfl
            simp only [fate, hread, htransform, if_pos hsame]
          · by_cases hfull : f.access = .full
            · -- the one case in which the file is another one the second time
              have hfate : c.fate o path owner f =
                  .ok { path, root := owner, old, content := new, changed := true } := by
                simp [fate, hread, htransform, hsame, hpolish, hfull]
              have hwritten : ({ f with content := .text new } : File).read = .ok new := by
                simp [File.read, hfull]
              rw [hfate]
              simp only [File.after, hdry, Bool.not_false, Bool.and_self, if_true]
              simp only [fate, hwritten, hidem old path new htransform, if_true, settled]
            · apply hagain (.error { path, root := owner, fault := .io .permissionDenied }) _ rfl rfl
              simp [fate, hread, htransform, hsame, hpolish, hdry, hfull]

/-! ## All files -/

/-- Rewriting a second time changes nothing. -/
theorem rewrite_rewrite (f : File) :
    c.rewrite o root base targets loc (c.rewrite o root base targets loc f) =
      c.rewrite o root base targets loc f := by
  by_cases hloc : ∃ names ∈ targets, base ++ names = loc
  · obtain ⟨names, hnames, rfl⟩ := hloc
    rw [rewrite_of_mem hnames, rewrite_of_mem hnames, fateAt, fateAt, fate_after hdry hplain hidem,
      after_settled]
  · have hne : ∀ names ∈ targets, base ++ names ≠ loc := fun names hnames heq => hloc ⟨names, hnames, heq⟩
    rw [rewrite_of_not_mem hne, rewrite_of_not_mem hne]

end Twice

/-- A run that went through was allowed to begin. -/
theorem before_of_run {report : RunReport} (h : c.run root o d = .ok (report, d')) :
    o.hooks.before c = .ok () := by
  cases hbefore : o.hooks.before c with
  | ok _ => rfl
  | error fault =>
      have hrefused : c.run root o d = .error fault := run_eq_error_iff.mpr (.inl hbefore)
      rw [h] at hrefused
      cases hrefused

/-- **A second run is quiet.** After a run of a codemod that adds nothing to what it made, a second one
goes through as well. It walks the same directory and finds the same there, so it has the same targets;
every file that went through is unchanged, every other fails again; and the tree stays as it is. -/
theorem run_again_quiet (c : Codemod) (root : Path) (o : RunOptions) (d : Disk) (hdry : o.dry = false)
    (hplain : o.hooks.polish? = none) (hidem : c.Idempotent) {report : RunReport} {d' : Disk}
    (h : c.run root o d = .ok (report, d')) :
    ∃ again base walked, c.run root o d' = .ok (again, d') ∧
      d.walk root = .ok (base, walked) ∧ d'.walk root = .ok (base, walked) ∧
      again.results = report.results.map settled := by
  obtain ⟨base, walked, file, hfirst⟩ := perFile_of_run h
  have hwalk : d'.walk root = .ok (base, walked) := by
    rw [hfirst.tree]
    exact Disk.walk_mapFiles hfirst.walk _
  obtain ⟨again, d'', file', hrun, hsecond⟩ := exists_perFile (before_of_run h) hwalk
  -- the files of the second run are those that the first one left
  have hfile : ∀ names ∈ c.targets o walked,
      file' names = (file names).after o.dry (c.fateAt o root names (file names)) := by
    intro names hnames
    have hlookup := hsecond.files names hnames
    rw [hfirst.tree, Disk.lookup?_mapFiles, hfirst.files names hnames, Option.map_some, Entry.mapFiles,
      rewrite_of_mem hnames] at hlookup
    exact (Entry.file.inj (Option.some.inj hlookup)).symm
  have htree : d'' = d' := by
    rw [hsecond.tree, hfirst.tree, Disk.mapFiles_mapFiles]
    apply Disk.mapFiles_congr
    intro loc f _
    exact rewrite_rewrite hdry hplain hidem f
  refine ⟨again, base, walked, htree ▸ hrun, hfirst.walk, hwalk, ?_⟩
  rw [hsecond.results, hfirst.results, List.map_append, List.map_map]
  congr 1
  · simp [walkFailures, settled]
  · apply List.map_congr_left
    intro names hnames
    rw [hfile names hnames]
    exact fate_after hdry hplain hidem _ _ _

/-- Turns greetings into loud ones. -/
def loud : Codemod where
  name := "loud"
  languages := []
  transform text _ := .ok (if text = "hi" then "hi!" else text)

theorem loud_idempotent : loud.Idempotent := by
  intro text path new h
  have hnew : (if text = "hi" then "hi!" else text) = new := Except.ok.inj h
  subst hnew
  show Except.ok _ = Except.ok _
  by_cases htext : text = "hi" <;> simp [htext]

/-- Of a file that was changed, one that may only be read and one that may not even be read. -/
theorem run_again_quiet_mixed :
    ∃ report d' again, loud.run ⟨"/"⟩ {} mixed = .ok (report, d') ∧
      successes report.results = [⟨⟨"/web/a"⟩, ⟨"/web"⟩, "hi", "hi!", true⟩] ∧
      loud.run ⟨"/"⟩ {} d' = .ok (again, d') ∧
      successes again.results = [⟨⟨"/web/a"⟩, ⟨"/web"⟩, "hi!", "hi!", false⟩] ∧
      (failures again.results).map (·.path) = [⟨"/web/b"⟩, ⟨"/web/c"⟩] := by
  have hview : (loud.run ⟨"/"⟩ {} mixed).toOption.map
      (fun r => (successes r.1.results, (failures r.1.results).map (·.path))) =
        some ([⟨⟨"/web/a"⟩, ⟨"/web"⟩, "hi", "hi!", true⟩], [⟨"/web/b"⟩, ⟨"/web/c"⟩]) := by decide +kernel
  cases hrun : loud.run ⟨"/"⟩ {} mixed with
  | error fault =>
      rw [hrun] at hview
      cases hview
  | ok given =>
      obtain ⟨report, d'⟩ := given
      rw [hrun] at hview
      obtain ⟨hdone, hfailed⟩ := Prod.mk.inj (Option.some.inj hview)
      obtain ⟨again, -, -, hagain, -, -, hresults⟩ :=
        run_again_quiet loud ⟨"/"⟩ {} mixed rfl rfl loud_idempotent hrun
      refine ⟨report, d', again, rfl, hdone, hagain, ?_, ?_⟩
      · rw [hresults, successes_settled, hdone]
        rfl
      · rw [hresults, failures_settled, hfailed]

end Codemod

end CodeSweep
