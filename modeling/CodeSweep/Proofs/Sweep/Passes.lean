import CodeSweep.Proofs.Git.SideBySide
import CodeSweep.Sweep

/-! # Passes over working copies

A sweep takes an operation over its working copies, one after the other: to clone them, to prepare
them, to publish them. What is shown here of such a pass is shown of one working copy first and then,
by induction, of all of them. -/

namespace CodeSweep

variable {σ α : Type} {s : Session σ}

theorem Session.bind_apply {β : Type} (x : StateM (Session σ) α) (f : α → StateM (Session σ) β)
    (s : Session σ) : (x >>= f) s = f (x s).1 (x s).2 := rfl

theorem Session.get_apply (s : Session σ) : (get : StateM (Session σ) (Session σ)) s = (s, s) := rfl

namespace Checkout

variable {op : Repository → Git σ Unit} {copy : Checkout} {copies rest : List Checkout}

/-- Performing an operation is running it at the desk of the working copy. -/
theorem perform_eq (op : Repository → Git σ α) (copy : Checkout) (s : Session σ) :
    copy.perform op s =
      ((((op copy.repository).finish { current := copy.current, session := s }).1,
          { copy with
            current := ((op copy.repository).finish { current := copy.current, session := s }).2.current }),
        ((op copy.repository).finish { current := copy.current, session := s }).2.session) := by
  unfold perform Git.finish
  cases op copy.repository { current := copy.current, session := s } <;> rfl

theorem perform_gives (copy : Checkout) (op : Repository → Git σ α) :
    Session.Gives (fun a => a.2.repository = copy.repository) (copy.perform op) := by
  intro s
  rw [perform_eq]

/-- Operations that end alike do so for a working copy. -/
theorem perform_paired {R : Session σ → Session σ → Prop} {op op' : Repository → Git σ α}
    (hop : Git.Paired copy.repository R (op copy.repository) (op' copy.repository)) :
    Session.Paired R (copy.perform op) (copy.perform op') := by
  intro s t hst
  obtain ⟨houtcome, hcurrent, hsession, -⟩ :=
    hop { current := copy.current, session := s } { current := copy.current, session := t } rfl hst
  rw [perform_eq, perform_eq]
  exact ⟨by rw [houtcome, hcurrent], hsession⟩

/-- A working copy for which the operation succeeds is kept. -/
theorem keepAll_cons_of_ok (h : (copy.perform op s).1.1 = .ok ()) :
    keepAll op (copy :: rest) s =
      ((copy.perform op s).1.2 :: (keepAll op rest (copy.perform op s).2).1,
        (keepAll op rest (copy.perform op s).2).2) := by
  rcases hperform : copy.perform op s with ⟨⟨outcome, kept⟩, s'⟩
  rw [hperform] at h
  dsimp only at h
  subst h
  simp only [keepAll, bind, StateT.bind, hperform]
  rfl

/-- A working copy for which it fails is told of. -/
theorem keepAll_cons_of_error {fault : GitFault} (h : (copy.perform op s).1.1 = .error fault) :
    keepAll op (copy :: rest) s =
      keepAll op rest (Session.tell (.repositoryFailed fault) (copy.perform op s).2).2 := by
  rcases hperform : copy.perform op s with ⟨⟨outcome, kept⟩, s'⟩
  rw [hperform] at h
  dsimp only at h
  subst h
  simp only [keepAll, bind, StateT.bind, hperform]
  rfl

/-- The working copies that a pass keeps are some of those it was given, in their order. -/
theorem keepAll_sublist (op : Repository → Git σ Unit) (copies : List Checkout) (s : Session σ) :
    ((keepAll op copies s).1.map (·.repository)).Sublist (copies.map (·.repository)) := by
  induction copies generalizing s with
  | nil => exact List.Sublist.slnil
  | cons copy rest ih =>
      cases hperform : (copy.perform op s).1.1 with
      | ok _ =>
          rw [keepAll_cons_of_ok hperform, List.map_cons, List.map_cons, perform_gives copy op s]
          exact (ih _).cons_cons _
      | error fault =>
          rw [keepAll_cons_of_error hperform]
          exact (ih _).cons _

theorem keepAll_forall {Q : Repository → Prop} (h : ∀ copy ∈ copies, Q copy.repository)
    (op : Repository → Git σ Unit) (s : Session σ) : ∀ copy ∈ (keepAll op copies s).1, Q copy.repository := by
  intro copy hcopy
  have hkept := (keepAll_sublist op copies s).subset (List.mem_map_of_mem hcopy)
  obtain ⟨given, hgiven, heq⟩ := List.mem_map.mp hkept
  rw [← heq]
  exact h given hgiven

/-- What one operation keeps, for each working copy, the pass keeps. -/
theorem keepAll_keeps {Q : Session σ → Prop}
    (hop : ∀ copy ∈ copies, ∀ s, Q s → Q (copy.perform op s).2)
    (htell : ∀ s fault, Q s → Q (Session.tell (.repositoryFailed fault) s).2) (hs : Q s) :
    Q (keepAll op copies s).2 := by
  induction copies generalizing s with
  | nil => exact hs
  | cons copy rest ih =>
      have hfirst := hop copy List.mem_cons_self s hs
      have hrest := fun copy hcopy => hop copy (List.mem_cons_of_mem _ hcopy)
      cases hperform : (copy.perform op s).1.1 with
      | ok _ =>
          rw [keepAll_cons_of_ok hperform]
          exact ih hrest hfirst
      | error fault =>
          rw [keepAll_cons_of_error hperform]
          exact ih hrest (htell _ fault hfirst)

end Checkout

namespace Campaign

variable {w : World σ} {c : Campaign} {roots : List Path} {copy : Checkout} {rest : List Checkout}

/-- Publishing a working copy leaves it where it is. -/
theorem repository_publishOne : (c.publishOne w copy s).1.2.repository = copy.repository := by
  have hends : Session.Gives (fun a => a.2.repository = copy.repository) (c.publishOne w copy) := by
    refine (Checkout.perform_gives copy _).bind fun (committed, copy') hcopy' => ?_
    cases committed with
    | error fault => exact .bind (Session.gives_any _) fun _ _ => .pure hcopy'
    | ok _ =>
        refine (Checkout.perform_gives copy' _).bind fun (pushed, copy'') hcopy'' => ?_
        have hhere := hcopy''.trans hcopy'
        cases pushed with
        | error fault => exact .bind (Session.gives_any _) fun _ _ => .pure hhere
        | ok _ =>
            refine .bind (Session.gives_any _) fun answer _ => ?_
            cases answer <;> exact .bind (Session.gives_any _) fun _ _ => .pure hhere
  exact hends s

/-- Publishing is the same in two worlds where all that it asks is. -/
theorem publishOne_paired {w' : World σ} {R : Session σ → Session σ → Prop}
    {asks : List String → Prop} (h : copy.repository.Served w w' R asks)
    (hcommit : asks ["commit", "-m", c.message, "--no-verify"])
    (hpush : ∀ remote branch,
      asks ["push", "--force", "--no-verify", "--set-upstream", remote, branch])
    (hrequest : Session.Paired R (copy.repository.openRequest w c.request)
      (copy.repository.openRequest w' c.request)) :
    Session.Paired R (c.publishOne w copy) (c.publishOne w' copy) := by
  refine (Checkout.perform_paired (Repository.commit_paired h c.message hcommit)).bind
    (Checkout.perform_gives copy _) fun (committed, copy') hcopy' => ?_
  dsimp only at hcopy'
  rw [← hcopy'] at h hrequest
  cases committed with
  | error fault => exact (h.tell _ rfl).bind_any fun _ => Session.paired_pure _
  | ok _ =>
      refine (Checkout.perform_paired (Repository.push_paired h hpush)).bind
        (Checkout.perform_gives copy' _) fun (pushed, copy'') hcopy'' => ?_
      dsimp only at hcopy''
      rw [← hcopy''] at h hrequest
      cases pushed with
      | error fault => exact (h.tell _ rfl).bind_any fun _ => Session.paired_pure _
      | ok _ =>
          refine hrequest.bind_any fun answer => ?_
          cases answer <;> exact (h.tell _ rfl).bind_any fun _ => Session.paired_pure _

theorem publishEach_cons_of_mem (h : roots.any (·.same copy.repository.path) = true) :
    c.publishEach w roots (copy :: rest) s =
      let published := c.publishOne w copy s
      let later := c.publishEach w roots rest published.2
      (({ address := published.1.2.repository.address, outcome := published.1.1 } :: later.1.1,
        published.1.2 :: later.1.2), later.2) := by
  simp only [publishEach, h, if_true]
  rfl

theorem publishEach_cons_of_not_mem (h : roots.any (·.same copy.repository.path) = false) :
    c.publishEach w roots (copy :: rest) s =
      let later := c.publishEach w roots rest s
      ((later.1.1, copy :: later.1.2), later.2) := by
  simp only [publishEach, h]
  rfl

theorem publishEach_nil (copies : List Checkout) : c.publishEach w [] copies s = (([], copies), s) := by
  induction copies generalizing s with
  | nil => rfl
  | cons copy rest ih => rw [publishEach_cons_of_not_mem rfl, ih]

/-- Without changes nothing is published, and that is told. -/
theorem publish_of_nil {results : List FileResult} {copies : List Checkout}
    (h : changedRoots results = []) : c.publish w results copies s =
      (([], copies), (Session.tell (.nothingTransformed c.codemod.name) s).2) := by
  simp only [publish, h]
  rfl

theorem publish_of_ne_nil {results : List FileResult} {copies : List Checkout}
    (h : changedRoots results ≠ []) :
    c.publish w results copies s = c.publishEach w (changedRoots results) copies s := by
  have hsome : (changedRoots results).isEmpty = false := by simpa using h
  simp only [publish, hsome]
  rfl

end Campaign

/-! ## A sweep with one codemod, stage by stage -/

namespace Sweep

variable {w : World σ} {sweep : Sweep} {c : Campaign} {prepared : List Checkout} {fault : Fault}

/-- The working copies that a codemod is for, before they are cloned. -/
def copies (sweep : Sweep) (c : Campaign) : List Checkout :=
  (Repository.ofSpecs (sweep.selected c) (sweep.workDir c)).map fun r => { repository := r }

/-- Making the working directory, after that the sweep prepares was told. -/
def enter (sweep : Sweep) (c : Campaign) : StateM (Session σ) (Except IoFault Unit) := do
  Session.tell (.preparing c.codemod.name (sweep.selected c).length)
  Session.makeDirs (sweep.workDir c)

theorem gather_of_error {cause : IoFault} (h : (sweep.enter c s).1 = .error cause) :
    sweep.gather w c s = (.error (.io cause), (sweep.enter c s).2) := by
  simp only [enter, Session.bind_apply] at h
  simp only [gather, Checkout.cloneAll, Session.bind_apply, h]
  rfl

/-- Gathering takes two passes over the working copies. -/
theorem gather_of_ok (h : (sweep.enter c s).1 = .ok ()) :
    sweep.gather w c s =
      let cloned := Checkout.keepAll (·.clone w) (sweep.copies c) (sweep.enter c s).2
      let prepared := Checkout.keepAll (·.prepare w c.branch) cloned.1 cloned.2
      (.ok prepared.1, prepared.2) := by
  simp only [enter, Session.bind_apply] at h
  simp only [gather, Checkout.cloneAll, Session.bind_apply, h]
  rfl

theorem transform_of_error
    (h : c.codemod.run (sweep.workDir c) (sweep.options prepared) s.disk = .error fault) :
    sweep.transform w c prepared s = (.error fault, s) := by
  simp only [transform, Session.bind_apply, Session.get_apply]
  rw [h]
  rfl

/-- Publishing, unless the sweep is dry. -/
def release (w : World σ) (sweep : Sweep) (c : Campaign) (results : List FileResult)
    (prepared : List Checkout) (s : Session σ) : List Publication × Session σ :=
  if sweep.dry then ([], s)
  else ((c.publish w results prepared s).1.1, (c.publish w results prepared s).2)

theorem transform_of_ok {report : RunReport} {disk : Disk}
    (h : c.codemod.run (sweep.workDir c) (sweep.options prepared) s.disk = .ok (report, disk)) :
    sweep.transform w c prepared s =
      let released := sweep.release w c report.results prepared
        { s with disk, events := s.events ++ report.events }
      (.ok { results := report.results, publications := released.1, handed := report.handed },
        (Session.tell (.complete c.codemod.name) released.2).2) := by
  simp only [transform, Session.bind_apply, Session.get_apply]
  rw [h]
  unfold release
  cases sweep.dry <;> rfl

theorem runOne_of_error (h : (sweep.gather w c s).1 = .error fault) :
    sweep.runOne w c s = (.error fault, (sweep.gather w c s).2) := by
  simp only [runOne, Session.bind_apply, h]
  rfl

theorem runOne_of_ok (h : (sweep.gather w c s).1 = .ok prepared) :
    sweep.runOne w c s = sweep.transform w c prepared (sweep.gather w c s).2 := by
  simp only [runOne, Session.bind_apply, h]

theorem outcomeOf_of_error (h : (sweep.runOne w c s).1 = .error fault) :
    sweep.outcomeOf w c s = ({ fault := some fault },
      (Session.tell (.codemodFailed c.codemod.name fault) (sweep.runOne w c s).2).2) := by
  simp only [outcomeOf, Session.bind_apply, h]
  rfl

/-- Without its directory a sweep comes to nothing, whatever the world. -/
theorem outcomeOf_of_enter_error {cause : IoFault} (h : (sweep.enter c s).1 = .error cause) :
    sweep.outcomeOf w c s = ({ fault := some (.io cause) },
      (Session.tell (.codemodFailed c.codemod.name (.io cause)) (sweep.enter c s).2).2) := by
  have hgather : sweep.gather w c s = (.error (.io cause), (sweep.enter c s).2) := gather_of_error h
  have hone : sweep.runOne w c s = (.error (.io cause), (sweep.enter c s).2) := by
    rw [runOne_of_error (by rw [hgather]), hgather]
  rw [outcomeOf_of_error (by rw [hone]), hone]

theorem outcomeOf_of_ok {outcome : SweepOutcome} (h : (sweep.runOne w c s).1 = .ok outcome) :
    sweep.outcomeOf w c s = (outcome, (sweep.runOne w c s).2) := by
  simp only [outcomeOf, Session.bind_apply, h]
  rfl

end Sweep

end CodeSweep
