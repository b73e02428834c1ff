import CodeSweep.Proofs.Codemod.PerFile
import CodeSweep.Proofs.Sweep.Passes
import CodeSweep.Proofs.Workspace.Naming

/-! # What a sweep publishes

A sweep that goes through publishes exactly the repositories in which files changed: each once, in the
order in which they were prepared, and nothing is committed, pushed or asked to be pulled for any other
(`outcomeOf_publishes`).

Which repository a changed file belongs to is decided three times, by the filter of the targets, by the
root of the result and by the publisher. That all three decide alike is shown for every file of a run
(`root_of_success`, `same_path_iff`); what is said to the world is followed through every pass by what
it adds to the transcript (`Session.Adds`). -/

namespace CodeSweep

variable {σ : Type}

/-- Whether an exchange gives changes away: a commit, a push, or the request for a pull request. -/
def Exchange.publishes : Exchange → Bool
  | .command c _ =>
    (c.program == "git" && (c.args.head? == some "commit" || c.args.head? == some "push")) ||
      (c.program == "gh" && c.args.head? == some "pr")
  | .defaultBranch .. => false
  | .pullRequest .. => true

/-- Whether an exchange is made for a repository: in its directory, or about its address. -/
def Exchange.IsFor (r : Repository) : Exchange → Prop
  | .command c _ => c.cwd = r.path
  | .defaultBranch address _ => address = r.address
  | .pullRequest address _ _ => address = r.address

/-! ## What a session says -/

namespace Session

variable {P P' : Exchange → Prop} {s s' s'' : Session σ}

/-- One session leads to another, and all that is said on the way has a property. -/
def Adds (P : Exchange → Prop) (s s' : Session σ) : Prop :=
  ∃ t, s'.transcript = s.transcript ++ t ∧ ∀ e ∈ t, P e

theorem Adds.of_eq (h : s'.transcript = s.transcript) : s.Adds P s' := ⟨[], by simp [h], nofun⟩

theorem Adds.one {e : Exchange} (h : s'.transcript = s.transcript ++ [e]) (he : P e) : s.Adds P s' :=
  ⟨[e], h, by simpa using he⟩

theorem Adds.trans (h : s.Adds P s') (h' : s'.Adds P s'') : s.Adds P s'' := by
  obtain ⟨t, ht, hP⟩ := h
  obtain ⟨t', ht', hP'⟩ := h'
  refine ⟨t ++ t', by rw [ht', ht, List.append_assoc], fun e he => ?_⟩
  rcases List.mem_append.mp he with he | he
  · exact hP e he
  · exact hP' e he

theorem Adds.mono (h : s.Adds P s') (hP : ∀ e, P e → P' e) : s.Adds P' s' := by
  obtain ⟨t, ht, hall⟩ := h
  exact ⟨t, ht, fun e he => hP e (hall e he)⟩

theorem adds_call (w : World σ) {command : Command} (h : ∀ reply, P (.command command reply)) :
    s.Adds P (w.call command s).2 :=
  .one rfl (h _)

theorem adds_defaultBranch (w : World σ) (r : Repository) (hbranch : ∀ answer, P (.defaultBranch r.address answer))
    (hgh : ∀ reply, P (.command { cwd := r.path, program := "gh", args := Hosting.viewArgs } reply)) :
    s.Adds P (Hosting.defaultBranch w r.address r.path s).2 := by
  unfold Hosting.defaultBranch
  cases w.hosting with
  | gh => exact (adds_call w hgh).trans (.one rfl (hbranch _))
  | service ask request => exact .one rfl (hbranch _)

theorem adds_openRequest (w : World σ) (r : Repository) (request : PullRequest)
    (hrequest : ∀ answer, P (.pullRequest r.address request answer))
    (hgh : ∀ reply,
      P (.command { cwd := r.path, program := "gh", args := Hosting.requestArgs request } reply)) :
    s.Adds P (r.openRequest w request s).2 := by
  unfold Repository.openRequest Hosting.openRequest
  cases w.hosting with
  | gh => exact (adds_call w hgh).trans (.one rfl (hrequest _))
  | service branch ask => exact .one rfl (hrequest _)

end Session

namespace Repository

variable {P : Exchange → Prop} {asks : List String → Prop} {r : Repository} {s : Session σ}

/-- Working on a repository only adds its own exchanges to what was said. -/
theorem served_of_adds (w : World σ) (hroutine : ∀ args, isRoutine args = true → asks args)
    (hgit : ∀ args reply, asks args → P (.command { cwd := r.path, program := "git", args } reply))
    (hbranch : ∀ answer, P (.defaultBranch r.address answer))
    (hgh : ∀ reply, P (.command { cwd := r.path, program := "gh", args := Hosting.viewArgs } reply)) :
    r.Served w w (Session.Beside (s.Adds P)) asks where
  routine := hroutine
  git args hargs := Session.paired_beside fun _ hs =>
    hs.trans (Session.adds_call w fun reply => hgit args reply hargs)
  defaultBranch := Session.paired_beside fun _ hs => hs.trans (Session.adds_defaultBranch w r hbranch hgh)
  tell _ _ := Session.paired_beside fun _ hs => hs.trans (.of_eq rfl)

end Repository

/-! ## Cloning and preparing -/

namespace Checkout

variable {w : World σ} {P : Exchange → Prop} {copies : List Checkout} {s : Session σ}

/-- A pass adds to what was said what it says for each working copy. -/
theorem keepAll_adds {op : Repository → Git σ Unit}
    (hop : ∀ copy ∈ copies, Git.Paired copy.repository (Session.Beside (s.Adds P)) (op copy.repository)
      (op copy.repository)) : s.Adds P (keepAll op copies s).2 := by
  refine keepAll_keeps (fun copy hcopy s' hs' => ?_) (fun s' fault hs' => hs'.trans (.of_eq rfl)) (.of_eq rfl)
  exact (perform_paired (hop copy hcopy) s' s' ⟨rfl, hs'⟩).2.2

theorem clone_adds (w : World σ) (r : Repository) (hclone : ∀ reply, P (.command r.cloneCommand reply)) :
    Git.Paired r (Session.Beside (s.Adds P)) (r.clone w) (r.clone w) := by
  refine Repository.clone_paired ⟨?_, ?_, ?_, ?_⟩
  · rintro _ _ ⟨rfl, -⟩
    rfl
  · exact Session.paired_beside fun _ hs => hs.trans (.of_eq rfl)
  · exact Session.paired_beside fun _ hs => hs.trans (Session.adds_call w hclone)
  · exact Session.paired_beside fun _ hs => hs.trans (.of_eq rfl)

end Checkout

/-- Nothing is given away that was not given away before. -/
def Exchange.Quiet (e : Exchange) : Prop := e.publishes = false

theorem Repository.prepare_quiet (w : World σ) (r : Repository) (working : String) {s : Session σ} :
    Git.Paired r (Session.Beside (s.Adds Exchange.Quiet)) (r.prepare w working) (r.prepare w working) := by
  have hserved : r.Served w w (Session.Beside (s.Adds Exchange.Quiet)) (isRoutine · = true) := by
    refine served_of_adds w (fun _ h => h) (fun args reply hargs => ?_) (fun _ => rfl) fun _ => rfl
    simp only [isRoutine, Bool.and_eq_true, bne_iff_ne] at hargs
    simp [Exchange.Quiet, Exchange.publishes, hargs]
  exact prepare_paired hserved working

namespace Sweep

variable {w : World σ} {sweep : Sweep} {c : Campaign} {prepared : List Checkout} {s : Session σ}

/-- Gathering gives repositories of the run, in their order, and gives nothing away. -/
theorem gather_spec (h : (sweep.gather w c s).1 = .ok prepared) :
    (prepared.map (·.repository)).Sublist (Repository.ofSpecs (sweep.selected c) (sweep.workDir c)) ∧
      s.Adds Exchange.Quiet (sweep.gather w c s).2 := by
  have henter : s.Adds Exchange.Quiet (sweep.enter c s).2 := .of_eq rfl
  cases hmade : (sweep.enter c s).1 with
  | error cause =>
      rw [gather_of_error hmade] at h
      cases h
  | ok _ =>
      rw [gather_of_ok hmade] at h ⊢
      cases h
      dsimp only
      constructor
      · refine (Checkout.keepAll_sublist _ _ _).trans ((Checkout.keepAll_sublist _ _ _).trans ?_)
        simp [copies, Function.comp_def]
      · refine henter.trans (.trans (Checkout.keepAll_adds fun copy _ => ?_)
          (Checkout.keepAll_adds fun copy _ => ?_))
        · exact Checkout.clone_adds w _ fun _ => rfl
        · exact Repository.prepare_quiet w _ c.branch

end Sweep

/-! ## Publishing -/

namespace Campaign

variable {w : World σ} {c : Campaign} {roots : List Path} {copies : List Checkout} {s : Session σ}

/-- The working copies whose directory is among the roots. -/
def touched (roots : List Path) (copies : List Checkout) : List Checkout :=
  copies.filter fun copy => roots.any (·.same copy.repository.path)

/-- All that is said while a working copy is published is said for it. -/
theorem publishOne_adds (copy : Checkout) :
    s.Adds (Exchange.IsFor copy.repository) (c.publishOne w copy s).2 := by
  have hserved : copy.repository.Served w w (Session.Beside (s.Adds (Exchange.IsFor copy.repository)))
      (fun _ => True) :=
    Repository.served_of_adds w (fun _ _ => trivial) (fun _ _ _ => rfl) (fun _ => rfl) fun _ => rfl
  have hrequest := Session.paired_beside (x := copy.repository.openRequest w c.request)
    (Q := s.Adds (Exchange.IsFor copy.repository)) fun _ hs =>
      hs.trans (Session.adds_openRequest w _ _ (fun _ => rfl) fun _ => rfl)
  have hpaired := publishOne_paired (c := c) hserved trivial (fun _ _ => trivial) hrequest
  exact (hpaired s s ⟨rfl, .of_eq rfl⟩).2.2

/-- Of the working copies exactly those with a changed root are published, and what is said is said for
them. -/
theorem publishEach_spec (roots : List Path) (copies : List Checkout) (s : Session σ) :
    (c.publishEach w roots copies s).1.1.map (·.address) =
        (touched roots copies).map (·.repository.address) ∧
      s.Adds (fun e => ∃ copy ∈ touched roots copies, e.IsFor copy.repository)
        (c.publishEach w roots copies s).2 := by
  induction copies generalizing s with
  | nil => exact ⟨rfl, .of_eq rfl⟩
  | cons copy rest ih =>
      cases hcopy : roots.any (·.same copy.repository.path) with
      | true =>
          have htouched : touched roots (copy :: rest) = copy :: touched roots rest :=
            List.filter_cons_of_pos hcopy
          obtain ⟨haddresses, hadds⟩ := ih (c.publishOne w copy s).2
          rw [publishEach_cons_of_mem hcopy, htouched]
          refine ⟨?_, .trans ((publishOne_adds copy).mono fun e he => ?_) (hadds.mono fun e he => ?_)⟩
          · simp [haddresses, repository_publishOne]
          · exact ⟨copy, List.mem_cons_self, he⟩
          · obtain ⟨other, hother, he⟩ := he
            exact ⟨other, List.mem_cons_of_mem _ hother, he⟩
      | false =>
          have htouched : touched roots (copy :: rest) = touched roots rest :=
            List.filter_cons_of_neg (by simp [hcopy])
          rw [publishEach_cons_of_not_mem hcopy, htouched]
          exact ih s

/-- The same, whether or not something changed. -/
theorem publish_spec (c : Campaign) (w : World σ) (results : List FileResult) (copies : List Checkout) (s : Session σ) :
    (c.publish w results copies s).1.1.map (·.address) =
        (touched (changedRoots results) copies).map (·.repository.address) ∧
      s.Adds (fun e => ∃ copy ∈ touched (changedRoots results) copies, e.IsFor copy.repository)
        (c.publish w results copies s).2 := by
  by_cases hnone : changedRoots results = []
  · rw [publish_of_nil hnone, hnone]
    exact ⟨by simp [touched], .of_eq rfl⟩
  · rw [publish_of_ne_nil hnone]
    exact publishEach_spec _ copies s

end Campaign

/-! ## Whose file it is -/

namespace Codemod

variable {c : Codemod} {o : RunOptions} {root : Path} {d : Disk}

theorem root_of_fate {path owner : Path} {f : File} {done : FileDone}
    (h : c.fate o path owner f = .ok done) : done.root = owner := by
  unfold fate at h
  repeat' split at h
  all_goals first | cases h; rfl | cases h

/-- A file that went through was accepted, and its root is the entry of the directory it lies in. -/
theorem root_of_success {report : RunReport} {d' : Disk} (h : c.run root o d = .ok (report, d'))
    {done : FileDone} (hdone : done ∈ successes report.results) :
    ∃ name more, Listing.isEntryName name = true ∧
      o.hooks.accepts (below ⟨""⟩ (name :: more)) = true ∧ done.root = root.child name := by
  obtain ⟨base, walked, file, hrun⟩ := perFile_of_run h
  obtain ⟨result, hresult, hok⟩ := List.mem_filterMap.mp hdone
  rw [hrun.results, List.mem_append] at hresult
  rcases hresult with hfailed | htarget
  · obtain ⟨names, -, rfl⟩ := List.mem_map.mp hfailed
    cases hok
  · obtain ⟨names, hnames, rfl⟩ := List.mem_map.mp htarget
    obtain ⟨hwalked, haccepts, -⟩ := mem_targets.mp hnames
    obtain ⟨name, more, rfl, hname⟩ := Disk.exists_name_of_mem_walk hrun.walk (.inl hwalked)
    refine ⟨name, more, hname, haccepts, ?_⟩
    cases hfate : c.fateAt o root (name :: more) (file (name :: more)) with
    | error failed =>
        rw [hfate] at hok
        cases hok
    | ok done' =>
        rw [hfate] at hok
        cases hok
        exact root_of_fate hfate

end Codemod

namespace Sweep

variable {w : World σ} {sweep : Sweep} {c : Campaign} {prepared : List Checkout} {s : Session σ}

/-- A target lies in the directory of a prepared repository. -/
theorem exists_prepared {name : String} {more : List String} (hname : Listing.isEntryName name = true)
    (h : isPrepared prepared (Codemod.below ⟨""⟩ (name :: more)) = true) :
    ∃ copy ∈ prepared, copy.repository.name = name := by
  rw [isPrepared, Codemod.head_components_below hname] at h
  simpa [Path.Component.text] using h

/-- The root of a file that went through is the path of a prepared repository, and no other root is
taken for it. -/
theorem same_path_iff {name : String} {r : Repository} (hname : Listing.isEntryName name = true)
    (hr : r ∈ Repository.ofSpecs (sweep.selected c) (sweep.workDir c)) :
    ((sweep.workDir c).child name).same r.path = true ↔ (sweep.workDir c).child name = r.path := by
  rw [(Repository.ofSpecs_spec hr).2, Path.same_child_iff hname (Repository.name_spec hr).2]
  refine ⟨fun h => by rw [h], Path.child_inj (Path.not_mem_of_isEntryName hname) (Repository.name_spec hr).2⟩

end Sweep

/-- What a sweep of some repositories with one codemod published. `prepared` are the working copies that
were gathered, and `published` those of them in which files changed. -/
structure SweepOutcome.Publishes (outcome : SweepOutcome) (repositories : List Repository)
    (prepared published : List Checkout) (said : List Exchange) : Prop where
  /-- Every file that went through belongs to a prepared repository. -/
  roots : ∀ done ∈ Codemod.successes outcome.results, ∃ copy ∈ prepared,
    done.root = copy.repository.path
  /-- The roots of changed files are the paths of the published repositories. -/
  changed : ∀ path, (∃ done ∈ Codemod.successes outcome.results, done.changed = true ∧ done.root = path) ↔
    ∃ copy ∈ published, copy.repository.path = path
  publications : outcome.publications.map (·.address) = published.map (·.repository.address)
  once : (outcome.publications.map (·.address)).Nodup
  inOrder : published.Sublist prepared
  gathered : (prepared.map (·.repository)).Sublist repositories
  /-- Whatever is given away is given away for a published repository and for no other. -/
  only : ∀ e ∈ said, e.publishes = true → ∃ copy ∈ published, e.IsFor copy.repository ∧
    ∀ r ∈ repositories, e.IsFor r → r = copy.repository

namespace Sweep

variable {w : World σ} {sweep : Sweep} {c : Campaign} {prepared : List Checkout} {s : Session σ}

/-- A sweep without a fault gathered its repositories, ran over them and released the results. -/
theorem outcomeOf_of_no_fault (h : (sweep.outcomeOf w c s).1.fault = none) :
    ∃ prepared report disk, (sweep.gather w c s).1 = .ok prepared ∧
      c.codemod.run (sweep.workDir c) (sweep.options prepared) (sweep.gather w c s).2.disk =
        .ok (report, disk) ∧
      sweep.outcomeOf w c s =
        let released := sweep.release w c report.results prepared
          { (sweep.gather w c s).2 with
            disk, events := (sweep.gather w c s).2.events ++ report.events }
        ({ results := report.results, publications := released.1, handed := report.handed },
          (Session.tell (.complete c.codemod.name) released.2).2) := by
  have hno : ∀ fault, (sweep.runOne w c s).1 ≠ .error fault := by
    intro fault herror
    rw [outcomeOf_of_error herror] at h
    cases h
  cases hgather : (sweep.gather w c s).1 with
  | error fault => exact absurd (by rw [runOne_of_error hgather]) (hno fault)
  | ok prepared =>
      have hone : sweep.runOne w c s = sweep.transform w c prepared (sweep.gather w c s).2 :=
        runOne_of_ok hgather
      cases hrun : c.codemod.run (sweep.workDir c) (sweep.options prepared)
          (sweep.gather w c s).2.disk with
      | error fault => exact absurd (by rw [hone, transform_of_error hrun]) (hno fault)
      | ok given =>
          obtain ⟨report, disk⟩ := given
          refine ⟨prepared, report, disk, rfl, hrun, ?_⟩
          rw [transform_of_ok hrun] at hone
          rw [outcomeOf_of_ok (by rw [hone]), hone]

/-- Every file that went through has a prepared repository as its root. -/
theorem exists_copy_of_success {report : RunReport} {d d' : Disk}
    (hprepared : (prepared.map (·.repository)).Sublist
      (Repository.ofSpecs (sweep.selected c) (sweep.workDir c)))
    (hrun : c.codemod.run (sweep.workDir c) (sweep.options prepared) d = .ok (report, d'))
    {done : FileDone} (hdone : done ∈ Codemod.successes report.results) :
    ∃ copy ∈ prepared, done.root = copy.repository.path := by
  obtain ⟨name, more, hname, haccepts, hroot⟩ := Codemod.root_of_success hrun hdone
  obtain ⟨copy, hcopy, rfl⟩ := exists_prepared hname haccepts
  have hmem := hprepared.subset (List.mem_map_of_mem hcopy)
  exact ⟨copy, hcopy, by rw [hroot, (Repository.ofSpecs_spec hmem).2]⟩

/-- The publisher takes a repository for changed exactly when a changed file has it as its root. -/
theorem mem_touched_iff {report : RunReport} {d d' : Disk}
    (hprepared : (prepared.map (·.repository)).Sublist
      (Repository.ofSpecs (sweep.selected c) (sweep.workDir c)))
    (hrun : c.codemod.run (sweep.workDir c) (sweep.options prepared) d = .ok (report, d'))
    {copy : Checkout} (hcopy : copy ∈ prepared) :
    copy ∈ Campaign.touched (Campaign.changedRoots report.results) prepared ↔
      ∃ done ∈ Codemod.successes report.results, done.changed = true ∧
        done.root = copy.repository.path := by
  have hmem := hprepared.subset (List.mem_map_of_mem hcopy)
  simp only [Campaign.touched, List.mem_filter, hcopy, true_and, List.any_eq_true,
    Campaign.changedRoots, List.mem_map]
  constructor
  · rintro ⟨root, ⟨done, ⟨hdone, hchanged⟩, rfl⟩, hsame⟩
    obtain ⟨name, more, hname, -, hroot⟩ := Codemod.root_of_success hrun hdone
    rw [hroot] at hsame
    exact ⟨done, hdone, hchanged, hroot.trans ((same_path_iff hname hmem).mp hsame)⟩
  · rintro ⟨done, hdone, hchanged, hroot⟩
    exact ⟨done.root, ⟨done, ⟨hdone, hchanged⟩, rfl⟩, by simp [hroot, Path.same]⟩

/-- An exchange is made for one repository of a run at most. -/
theorem eq_of_isFor {e : Exchange} {r r' : Repository}
    (hr : r ∈ Repository.ofSpecs (sweep.selected c) (sweep.workDir c))
    (hr' : r' ∈ Repository.ofSpecs (sweep.selected c) (sweep.workDir c)) (h : e.IsFor r)
    (h' : e.IsFor r') : r = r' := by
  cases e with
  | command command reply => exact Repository.eq_of_path hr hr' (h.symm.trans h')
  | defaultBranch address answer => exact Repository.eq_of_address hr hr' (h.symm.trans h')
  | pullRequest address request answer => exact Repository.eq_of_address hr hr' (h.symm.trans h')

/-- **A sweep publishes what changed and nothing else.** -/
theorem outcomeOf_publishes (w : World σ) (sweep : Sweep) (c : Campaign) (s : Session σ)
    (hdry : sweep.dry = false) (hfault : (sweep.outcomeOf w c s).1.fault = none) :
    ∃ prepared published said, (sweep.gather w c s).1 = .ok prepared ∧
      (sweep.outcomeOf w c s).2.transcript = s.transcript ++ said ∧
      (sweep.outcomeOf w c s).1.Publishes
        (Repository.ofSpecs (sweep.selected c) (sweep.workDir c)) prepared published said := by
  obtain ⟨prepared, report, disk, hgather, hrun, houtcome⟩ := outcomeOf_of_no_fault hfault
  obtain ⟨hprepared, early, hearly, hquiet⟩ := gather_spec hgather
  obtain ⟨haddresses, late, hlate, hfor⟩ := c.publish_spec w report.results prepared
    { (sweep.gather w c s).2 with disk, events := (sweep.gather w c s).2.events ++ report.events }
  have hmem : ∀ copy ∈ prepared, copy.repository ∈
      Repository.ofSpecs (sweep.selected c) (sweep.workDir c) :=
    fun copy hcopy => hprepared.subset (List.mem_map_of_mem hcopy)
  have hsub : (Campaign.touched (Campaign.changedRoots report.results) prepared).Sublist prepared :=
    List.filter_sublist
  rw [houtcome]
  simp only [release, hdry, Bool.false_eq_true, if_false]
  refine ⟨prepared, _, early ++ late, hgather, ?_, fun done => exists_copy_of_success hprepared hrun,
    fun path => ⟨?_, ?_⟩, haddresses, ?_, hsub, hprepared, ?_⟩
  · rw [← List.append_assoc, ← hearly]
    exact hlate
  · rintro ⟨done, hdone, hchanged, rfl⟩
    obtain ⟨copy, hcopy, hroot⟩ := exists_copy_of_success hprepared hrun hdone
    exact ⟨copy, (mem_touched_iff hprepared hrun hcopy).mpr ⟨done, hdone, hchanged, hroot⟩, hroot.symm⟩
  · rintro ⟨copy, hcopy, rfl⟩
    exact (mem_touched_iff hprepared hrun (hsub.subset hcopy)).mp hcopy
  · have hnodup := (Repository.nodup_addresses (sweep.selected c) (sweep.workDir c)).sublist
      (hprepared.map (·.address))
    rw [List.map_map] at hnodup
    rw [haddresses]
    exact hnodup.sublist (hsub.map _)
  · intro e he hpublishes
    rcases List.mem_append.mp he with he | he
    -- nothing is given away before files are transformed
    · exact absurd hpublishes (by rw [hquiet e he]; decide)
    · obtain ⟨copy, hcopy, hisFor⟩ := hfor e he
      exact ⟨copy, hcopy, hisFor, fun r hr h => eq_of_isFor hr (hmem copy (hsub.subset hcopy)) h hisFor⟩

/-- Turns greetings into loud ones. -/
def greetings : Campaign :=
  .ofCodemod
    { name := "greet"
      languages := []
      transform := fun text _ => .ok (if text = "hi" then "hi!" else text) }

/-- A world in which every command succeeds, and every working copy is on its branch, which was pushed
before. -/
def settled : World Unit where
  run command state :=
    (.ok { stdout :=
      if command.args = ["branch"] then "* codemods/greet\n"
      else if command.args = ["remote"] then "origin\n"
      else if command.args = ["ls-remote", "--heads"] then "abc123\trefs/heads/codemods/greet\n"
      else "" }, state)
  hosting := .service (fun _ s => (.ok "main", s)) fun _ _ s => (.ok "https://host/1", s)

/-- A working directory with two repositories, of which one greets, and a directory left over from
another run, which greets as well. -/
def cluttered : Session Unit where
  disk :=
    { root :=
        .dir "ws" true
          (.dir "greet" true
            (.dir "api" true (.file "a.txt" { content := .text "bye" } .empty)
              (.dir "old" true (.file "a.txt" { content := .text "hi" } .empty)
                (.dir "web" true (.file "a.txt" { content := .text "hi" } .empty) .empty))) .empty) .empty
      proper := by decide }
  outside := ()

/-- A sweep over the two repositories. -/
def both : Sweep where
  workspace := ⟨"/ws"⟩
  repositories := [{ address := "git@host:acme/api.git" }, { address := "git@host:acme/web.git" }]

theorem outcomeOf_publishes_cluttered :
    (both.outcomeOf settled greetings cluttered).1.fault = none ∧
      (both.outcomeOf settled greetings cluttered).1.publications.map (·.address) =
        ["git@host:acme/web.git"] ∧
      ∃ prepared published said, (both.gather settled greetings cluttered).1 = .ok prepared ∧
        (both.outcomeOf settled greetings cluttered).2.transcript = cluttered.transcript ++ said ∧
        (both.outcomeOf settled greetings cluttered).1.Publishes
          (Repository.ofSpecs (both.selected greetings) (both.workDir greetings)) prepared published
          said := by
  have hfault : (both.outcomeOf settled greetings cluttered).1.fault.isNone = true := by decide +kernel
  have hnone := Option.isNone_iff_eq_none.mp hfault
  exact ⟨hnone, by decide +kernel, outcomeOf_publishes settled both greetings cluttered rfl hnone⟩

end Sweep

end CodeSweep
