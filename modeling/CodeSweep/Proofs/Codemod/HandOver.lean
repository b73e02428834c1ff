import CodeSweep.Proofs.Codemod.PerFile
import CodeSweep.Proofs.Ordered
import CodeSweep.Proofs.Workspace.PathOrder

/-! # Finished files by repository

After a run a codemod that asked for it is told of the files that went through, repository by repository.
The directories it is told of come from two sides, the caller and the results, and may be written in
several ways. It is told of each of them once and of no other (`HandsOver.once`), with the files of that
directory in the order of the results (`HandsOver.files`). So every file is handed over with exactly one
directory (`HandsOver.partition`), as every directory is in an ordered list once (`Ordered.countP_ofList`).
`run_hands_over` says this of whole runs. -/

namespace CodeSweep

/-- The finished files are told of by directory. `paths` are the directories to tell of, as the caller and
the results write them. -/
structure HandsOver (paths : List Path) (done : List FileDone) (handed : List Handed) : Prop where
  spelled : ∀ h ∈ handed, h.root ∈ paths
  once : ∀ path, handed.countP (·.root.same path) = if ∃ p ∈ paths, p.same path = true then 1 else 0
  files : ∀ h ∈ handed, h.files = done.filter (·.root.same h.root)
  partition : (handed.flatMap (·.files)).Perm done

namespace Codemod

variable {c : Codemod} {o : RunOptions} {root : Path} {base : Location} {d : Disk} {walked : Walked}
  {paths : List Path} {done : List FileDone}

/-! ## Groups -/

theorem countP_same (paths : List Path) (path : Path) :
    (Ordered.ofList Path.compare paths).countP (·.same path) =
      if ∃ p ∈ paths, p.same path = true then 1 else 0 := by
  have hsame : ∀ p : Path, p.same path = true ↔ path.compare p = .eq := by
    intro p
    rw [Path.compare_eq_iff_same, Path.same_comm]
  simp only [hsame, ← Ordered.countP_ofList path paths]
  apply List.countP_congr
  intro p _
  simp only [hsame, decide_eq_true_eq]

/-- A file is in the groups as often as its directory is among them. -/
theorem count_groups (roots : List Path) (done : List FileDone) (file : FileDone) :
    (roots.flatMap fun root => done.filter (·.root.same root)).count file =
      roots.countP (·.same file.root) * done.count file := by
  induction roots with
  | nil => simp
  | cons root roots ih =>
      rw [List.flatMap_cons, List.count_append, ih, List.countP_cons, Nat.add_mul, Nat.add_comm]
      congr 1
      rw [Path.same_comm]
      by_cases hsame : file.root.same root = true
      · rw [if_pos hsame, Nat.one_mul]
        exact List.count_filter hsame
      · rw [if_neg hsame, Nat.zero_mul, List.count_eq_zero]
        intro hmem
        exact hsame (List.mem_filter.mp hmem).2

/-- Groups by all directories, each once, hold every file once. -/
theorem groups_perm (hroots : ∀ file ∈ done, file.root ∈ paths) :
    ((Ordered.ofList Path.compare paths).flatMap fun root => done.filter (·.root.same root)).Perm done := by
  rw [List.perm_iff_count]
  intro file
  rw [count_groups, countP_same]
  by_cases hfile : file ∈ done
  · rw [if_pos ⟨file.root, hroots file hfile, beq_self_eq_true _⟩, Nat.one_mul]
  · rw [List.count_eq_zero.mpr hfile, Nat.mul_zero]

theorem handOver_handsOver (c : Codemod) (o : RunOptions) (results : List FileResult) :
    HandsOver (o.rootPaths ++ (successes results).map (·.root)) (successes results)
      (c.handOver o results) where
  spelled := by
    rw [handOver, List.forall_mem_map]
    intro path hpath
    exact Ordered.mem_of_mem_ofList hpath
  once := by
    intro path
    rw [handOver, List.countP_map]
    exact countP_same _ path
  files := by
    rw [handOver, List.forall_mem_map]
    exact fun _ _ => rfl
  partition := by
    rw [handOver, List.flatMap_map]
    apply groups_perm
    intro file hfile
    exact List.mem_append_right _ (List.mem_map_of_mem hfile)

/-! ## Runs -/

/-- A run with targets goes through, and hands over what it should. -/
theorem run_of_targets (hwatched : c.watched = true) (hbefore : o.hooks.before c = .ok ())
    (hwalk : d.walk root = .ok (base, walked)) (htargets : c.targets o walked ≠ []) :
    ∃ report d', c.run root o d = .ok (report, d') ∧ report.handed = c.handOver o report.results := by
  obtain ⟨first, more, hsome⟩ := List.exists_cons_of_ne_nil htargets
  unfold run
  rw [hbefore, hwalk]
  simp only [hsome, hwatched, if_true]
  exact ⟨_, _, rfl, rfl⟩

/-- **Nothing is lost between the results and what a codemod is told.** A run of a codemod that asks to be
told, with at least one target, tells it once of each directory that the caller named or that has finished
files, and of no other, each with the finished files of that directory in the order of the results. -/
theorem run_hands_over (c : Codemod) (root : Path) (o : RunOptions) (d : Disk) (base : Location)
    (walked : Walked) (hwatched : c.watched = true) (hbefore : o.hooks.before c = .ok ())
    (hwalk : d.walk root = .ok (base, walked)) (htargets : c.targets o walked ≠ []) :
    ∃ report d', c.run root o d = .ok (report, d') ∧
      (∀ h ∈ report.handed, h.codemod = c.name) ∧
      HandsOver (o.rootPaths ++ (successes report.results).map (·.root)) (successes report.results)
        report.handed := by
  obtain ⟨report, d', hrun, hhanded⟩ := run_of_targets hwatched hbefore hwalk htargets
  refine ⟨report, d', hrun, ?_, ?_⟩
  · rw [hhanded, handOver, List.forall_mem_map]
    exact fun _ _ => rfl
  · rw [hhanded]
    exact c.handOver_handsOver o report.results

/-- Adds a mark to every file, and wants to be told. -/
def markAloud : Codemod := { mark with watched := true }

/-- Two repositories, one of them with a file that may not be read. -/
def pair : Disk where
  root :=
    .dir "api" true (.file "c" { content := .text "hi" } .empty)
      (.dir "web" true
        (.file "a" { content := .text "hi" }
          (.file "b" { content := .text "hi", access := .denied } .empty)) .empty)
  proper := by decide

/-- A caller that names one repository twice, in two ways, and one that is not there. -/
def naming : RunOptions := { rootPaths := [⟨"/web/"⟩, ⟨"/docs"⟩, ⟨"//web"⟩] }

theorem run_hands_over_pair :
    ∃ report d', markAloud.run ⟨"/"⟩ naming pair = .ok (report, d') ∧
      HandsOver (naming.rootPaths ++ (successes report.results).map (·.root)) (successes report.results)
        report.handed ∧
      report.handed.map (fun h => (h.root.text, h.files.map (·.path.text))) =
        [("/api", ["/api/c"]), ("/docs", []), ("/web", ["/web/a"])] := by
  have hwalk : pair.walk ⟨"/"⟩ = .ok ([], ⟨[["api", "c"], ["web", "a"], ["web", "b"]], []⟩) := rfl
  have htargets : markAloud.targets naming ⟨[["api", "c"], ["web", "a"], ["web", "b"]], []⟩ ≠ [] := by
    decide +kernel
  have hview : (markAloud.run ⟨"/"⟩ naming pair).toOption.map
      (fun r => r.1.handed.map fun h => (h.root.text, h.files.map (·.path.text))) =
        some [("/api", ["/api/c"]), ("/docs", []), ("/web", ["/web/a"])] := by
    decide +kernel
  obtain ⟨report, d', hrun, -, hhands⟩ :=
    run_hands_over markAloud ⟨"/"⟩ naming pair _ _ rfl rfl hwalk htargets
  refine ⟨report, d', hrun, hhands, ?_⟩
  rw [hrun] at hview
  exact Option.some.inj hview

end Codemod

end CodeSweep
