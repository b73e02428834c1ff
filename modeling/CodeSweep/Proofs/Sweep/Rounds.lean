import CodeSweep.Proofs.Sweep.Turns

/-! # The turns of a sweep

A sweep with one codemod takes turns in three rows: its repositories are cloned, those that could be are
prepared, and those of the prepared ones that changed are published. The turns are all that is said and
reported in a sweep (`outcomeOf_accounts`), however it goes (`Sweep.Goes`). Every repository has one turn
in a row at most, and each row is taken by what the row before it kept. -/

namespace CodeSweep

variable {σ : Type}

theorem Repository.Clones.current_eq {b b' : Option Branch} {t : List Exchange} {out : Except GitFault Unit}
    {r : Repository} (clone : r.Clones b t out b') : b' = b := by
  cases clone <;> rfl

namespace Sweep

variable {w : World σ} {sweep : Sweep} {c : Campaign} {s : Session σ}

/-- The pass that clones. -/
def clonePass (w : World σ) (sweep : Sweep) (c : Campaign) (s : Session σ) : List Checkout × Session σ :=
  Checkout.keepAll (·.clone w) (sweep.copies c) (sweep.enter c s).2

/-- The session in which publishing begins. -/
def transformed (gathered : Session σ) (report : RunReport) (disk : Disk) : Session σ :=
  { gathered with disk, events := gathered.events ++ report.events }

/-- The turns at being cloned. -/
def cloneTurns (w : World σ) (sweep : Sweep) (c : Campaign) (s : Session σ) : List (Turn σ) :=
  Turn.row (Checkout.turn (·.clone w)) (sweep.copies c) (sweep.enter c s).2

/-- The turns at being prepared. -/
def prepareTurns (w : World σ) (sweep : Sweep) (c : Campaign) (s : Session σ) : List (Turn σ) :=
  Turn.row (Checkout.turn (·.prepare w c.branch)) (sweep.clonePass w c s).1 (sweep.clonePass w c s).2

/-- The turns at being published, after the codemod was run: there are none where it could not, or where
the sweep is dry. -/
def publishTurns (w : World σ) (sweep : Sweep) (c : Campaign) (prepared : List Checkout)
    (gathered : Session σ) : Except Fault (RunReport × Disk) → List (Turn σ)
  | .error _ => []
  | .ok (report, disk) =>
    if sweep.dry then []
    else
      Turn.row (c.turn w) (Campaign.touched (Campaign.changedRoots report.results) prepared)
        (transformed gathered report disk)

/-- All turns of a sweep with a codemod, in the order in which they are taken. -/
def turns (w : World σ) (sweep : Sweep) (c : Campaign) (s : Session σ) : List (Turn σ) :=
  match sweep.gather w c s with
  | (.error _, _) => []
  | (.ok prepared, gathered) =>
    let ran := c.codemod.run (sweep.workDir c) (sweep.options prepared) gathered.disk
    sweep.cloneTurns w c s ++ (sweep.prepareTurns w c s ++ sweep.publishTurns w c prepared gathered ran)

theorem turns_of_enter_error {cause : IoFault} (henter : (sweep.enter c s).1 = .error cause) :
    sweep.turns w c s = [] := by
  unfold turns
  rw [gather_of_error henter]

theorem turns_of_gather {prepared : List Checkout} {gathered : Session σ}
    {ran : Except Fault (RunReport × Disk)} (hgather : sweep.gather w c s = (.ok prepared, gathered))
    (hrun : c.codemod.run (sweep.workDir c) (sweep.options prepared) gathered.disk = ran) :
    sweep.turns w c s = sweep.cloneTurns w c s ++
      (sweep.prepareTurns w c s ++ sweep.publishTurns w c prepared gathered ran) := by
  subst hrun
  unfold turns
  rw [hgather]

/-- How a sweep with a codemod goes: its directory cannot be made, the codemod cannot run, or it goes
through. -/
inductive Goes (w : World σ) (sweep : Sweep) (c : Campaign) (s : Session σ) : SweepOutcome × Session σ → Prop
  | nowhere {cause} (henter : (sweep.enter c s).1 = .error cause) :
      Goes w sweep c s ({ fault := some (.io cause) },
        (Session.tell (.codemodFailed c.codemod.name (.io cause)) (sweep.enter c s).2).2)
  | stopped {prepared gathered fault} (henter : (sweep.enter c s).1 = .ok ())
      (hgather : sweep.gather w c s = (.ok prepared, gathered))
      (hrun : c.codemod.run (sweep.workDir c) (sweep.options prepared) gathered.disk = .error fault) :
      Goes w sweep c s ({ fault := some fault },
        (Session.tell (.codemodFailed c.codemod.name fault) gathered).2)
  | through {prepared gathered report disk} (henter : (sweep.enter c s).1 = .ok ())
      (hgather : sweep.gather w c s = (.ok prepared, gathered))
      (hrun : c.codemod.run (sweep.workDir c) (sweep.options prepared) gathered.disk = .ok (report, disk)) :
      Goes w sweep c s
        (let released := sweep.release w c report.results prepared (transformed gathered report disk)
        ({ results := report.results, publications := released.1, handed := report.handed },
          (Session.tell (.complete c.codemod.name) released.2).2))

/-- In its directory, a sweep prepares repositories. -/
theorem exists_gathered (henter : (sweep.enter c s).1 = .ok ()) :
    ∃ prepared gathered, sweep.gather w c s = (.ok prepared, gathered) :=
  ⟨_, _, gather_of_ok henter⟩

section Gathered

variable {prepared : List Checkout} {gathered : Session σ}
  (hgather : sweep.gather w c s = (.ok prepared, gathered))

include hgather

theorem runOne_of_gather : sweep.runOne w c s = sweep.transform w c prepared gathered := by
  rw [runOne_of_ok (by rw [hgather]), hgather]

theorem outcomeOf_of_run_error {fault : Fault}
    (hrun : c.codemod.run (sweep.workDir c) (sweep.options prepared) gathered.disk = .error fault) :
    sweep.outcomeOf w c s =
      ({ fault := some fault }, (Session.tell (.codemodFailed c.codemod.name fault) gathered).2) := by
  have hone := runOne_of_gather hgather
  rw [transform_of_error hrun] at hone
  rw [outcomeOf_of_error (by rw [hone]), hone]

theorem outcomeOf_of_run_ok {report : RunReport} {disk : Disk}
    (hrun : c.codemod.run (sweep.workDir c) (sweep.options prepared) gathered.disk = .ok (report, disk)) :
    sweep.outcomeOf w c s =
      let released := sweep.release w c report.results prepared (transformed gathered report disk)
      ({ results := report.results, publications := released.1, handed := report.handed },
        (Session.tell (.complete c.codemod.name) released.2).2) := by
  have hone := runOne_of_gather hgather
  rw [transform_of_ok hrun] at hone
  rw [outcomeOf_of_ok (by rw [hone]), hone]
  rfl

end Gathered

theorem outcomeOf_goes (w : World σ) (sweep : Sweep) (c : Campaign) (s : Session σ) :
    sweep.Goes w c s (sweep.outcomeOf w c s) := by
  cases henter : (sweep.enter c s).1 with
  | error cause =>
      rw [outcomeOf_of_enter_error henter]
      exact .nowhere henter
  | ok _ =>
      obtain ⟨prepared, gathered, hgather⟩ := exists_gathered (w := w) henter
      cases hrun : c.codemod.run (sweep.workDir c) (sweep.options prepared) gathered.disk with
      | error fault =>
          rw [outcomeOf_of_run_error hgather hrun]
          exact .stopped henter hgather hrun
      | ok given =>
          rw [outcomeOf_of_run_ok hgather hrun]
          exact .through henter hgather hrun

theorem enter_accounts (w : World σ) (sweep : Sweep) (c : Campaign) (s : Session σ) :
    Turn.Accounts w s [] (sweep.enter c s).2 := by
  refine .nothing ⟨rfl, rfl, ?_⟩
  exact (Session.Quietly.tell (s := s) rfl).reports

theorem clonePass_eq_row (w : World σ) (sweep : Sweep) (c : Campaign) (s : Session σ) :
    sweep.clonePass w c s = (Turn.kept (sweep.cloneTurns w c s),
      Turn.rowEnd (Checkout.turn (·.clone w)) (sweep.copies c) (sweep.enter c s).2) :=
  Checkout.keepAll_eq_row _ _ _

/-- Gathering is two rows of turns. -/
theorem gather_eq_row (henter : (sweep.enter c s).1 = .ok ()) :
    sweep.gather w c s = (.ok (Turn.kept (sweep.prepareTurns w c s)),
      Turn.rowEnd (Checkout.turn (·.prepare w c.branch)) (sweep.clonePass w c s).1
        (sweep.clonePass w c s).2) := by
  rw [gather_of_ok henter]
  show (Except.ok (Checkout.keepAll _ (sweep.clonePass w c s).1 (sweep.clonePass w c s).2).1,
    (Checkout.keepAll _ (sweep.clonePass w c s).1 (sweep.clonePass w c s).2).2) = _
  rw [Checkout.keepAll_eq_row]
  rfl

theorem enter_of_gather {prepared : List Checkout} {gathered : Session σ}
    (hgather : sweep.gather w c s = (.ok prepared, gathered)) : (sweep.enter c s).1 = .ok () := by
  cases henter : (sweep.enter c s).1 with
  | ok _ => rfl
  | error cause =>
      rw [gather_of_error henter] at hgather
      cases hgather

/-- The working copies that are prepared are those that the second row keeps. -/
theorem prepared_eq {prepared : List Checkout} {gathered : Session σ}
    (hgather : sweep.gather w c s = (.ok prepared, gathered)) :
    prepared = Turn.kept (sweep.prepareTurns w c s) := by
  rw [gather_eq_row (enter_of_gather hgather)] at hgather
  cases hgather
  rfl

theorem gather_accounts (henter : (sweep.enter c s).1 = .ok ()) :
    Turn.Accounts w s (sweep.cloneTurns w c s ++ sweep.prepareTurns w c s) (sweep.gather w c s).2 := by
  have hclone : Turn.Accounts w (sweep.enter c s).2 (sweep.cloneTurns w c s) (sweep.clonePass w c s).2 := by
    rw [clonePass_eq_row]
    exact (Checkout.clone_takes w).row_accounts _ _
  have hprepare : Turn.Accounts w (sweep.clonePass w c s).2 (sweep.prepareTurns w c s)
      (sweep.gather w c s).2 := by
    rw [gather_eq_row henter]
    exact (Checkout.prepare_takes w c.branch).row_accounts _ _
  exact (enter_accounts w sweep c s).trans (hclone.trans hprepare)

/-- Running the codemod says nothing, and leaves no repository out. -/
theorem transformed_accounts {prepared : List Checkout} {gathered : Session σ} {report : RunReport}
    {disk : Disk}
    (hrun : c.codemod.run (sweep.workDir c) (sweep.options prepared) gathered.disk = .ok (report, disk)) :
    Turn.Accounts w gathered [] (transformed gathered report disk) := by
  refine .nothing ⟨rfl, rfl, ?_⟩
  have hnone : report.events.filter (·.skipped?.isSome) = [] := by
    rw [List.filter_eq_nil_iff]
    intro event hevent
    simp [Codemod.skipped?_of_mem_events hrun hevent]
  show (gathered.events ++ report.events).filter _ = _
  rw [List.filter_append, hnone, List.append_nil]
  rfl

/-- Publishing is a row of turns, unless the sweep is dry. -/
theorem release_accounts (w : World σ) (sweep : Sweep) (c : Campaign) (results : List FileResult)
    (prepared : List Checkout) (s : Session σ) :
    Turn.Accounts w s
      (if sweep.dry then []
        else Turn.row (c.turn w) (Campaign.touched (Campaign.changedRoots results) prepared) s)
      (sweep.release w c results prepared s).2 := by
  unfold release
  split
  · exact .nothing (.of_eq rfl)
  · by_cases hnone : Campaign.changedRoots results = []
    · have htouched : Campaign.touched (Campaign.changedRoots results) prepared = [] := by
        simp [Campaign.touched, hnone]
      rw [Campaign.publish_of_nil hnone, htouched]
      exact .nothing (.tell rfl)
    · rw [Campaign.publish_of_ne_nil hnone, Campaign.publishEach_eq_row]
      exact (c.publish_takes w).row_accounts _ s

/-- **The turns of a sweep are all that is said and reported in it.** -/
theorem outcomeOf_accounts (w : World σ) (sweep : Sweep) (c : Campaign) (s : Session σ) :
    Turn.Accounts w s (sweep.turns w c s) (sweep.outcomeOf w c s).2 := by
  generalize hended : sweep.outcomeOf w c s = ended
  have hgoes := sweep.outcomeOf_goes w c s
  rw [hended] at hgoes
  cases hgoes with
  | nowhere henter =>
      rw [turns_of_enter_error henter]
      exact (enter_accounts w sweep c s).tell rfl
  | @stopped prepared gathered fault henter hgather hrun =>
      have hgathered := gather_accounts (w := w) henter
      rw [hgather] at hgathered
      rw [turns_of_gather hgather hrun, publishTurns, List.append_nil]
      exact hgathered.tell rfl
  | @through prepared gathered report disk henter hgather hrun =>
      have hgathered := gather_accounts (w := w) henter
      rw [hgather] at hgathered
      have hreleased := (transformed_accounts (w := w) hrun).trans
        (release_accounts w sweep c report.results prepared (transformed gathered report disk))
      rw [turns_of_gather hgather hrun, publishTurns, ← List.append_assoc]
      exact (hgathered.trans hreleased).tell rfl

/-! ## Whose turns there are -/

section Whose

variable {turn : Turn σ} {prepared : List Checkout} {gathered : Session σ}

theorem nodup_repositoriesOf (sweep : Sweep) (c : Campaign) : (sweep.repositoriesOf c).Nodup :=
  (Repository.nodup_names _ _).of_map

theorem repositories_cloneTurns (w : World σ) (sweep : Sweep) (c : Campaign) (s : Session σ) :
    (sweep.cloneTurns w c s).map (·.repository) = sweep.repositoriesOf c :=
  (Checkout.clone_takes w).repositories_row_fresh _ _

theorem repositories_prepareTurns (w : World σ) (sweep : Sweep) (c : Campaign) (s : Session σ) :
    (sweep.prepareTurns w c s).map (·.repository) =
      (Turn.kept (sweep.cloneTurns w c s)).map (·.repository) := by
  rw [prepareTurns, (Checkout.prepare_takes w c.branch).repositories_row, clonePass_eq_row]

theorem sound_cloneTurns (w : World σ) (sweep : Sweep) (c : Campaign) (s : Session σ) :
    ∀ turn ∈ sweep.cloneTurns w c s, turn.Sound w :=
  fun _ => (Checkout.clone_takes w).sound_of_mem

theorem sound_prepareTurns (w : World σ) (sweep : Sweep) (c : Campaign) (s : Session σ) :
    ∀ turn ∈ sweep.prepareTurns w c s, turn.Sound w :=
  fun _ => (Checkout.prepare_takes w c.branch).sound_of_mem

theorem nodup_cloneTurns (w : World σ) (sweep : Sweep) (c : Campaign) (s : Session σ) :
    ((sweep.cloneTurns w c s).map (·.repository)).Nodup := by
  rw [repositories_cloneTurns]
  exact nodup_repositoriesOf sweep c

theorem nodup_prepareTurns (w : World σ) (sweep : Sweep) (c : Campaign) (s : Session σ) :
    ((sweep.prepareTurns w c s).map (·.repository)).Nodup := by
  rw [repositories_prepareTurns]
  exact (nodup_cloneTurns w sweep c s).sublist (Turn.repositories_kept (sound_cloneTurns w sweep c s))

/-- A turn at being published is one of a working copy that was prepared and changed. -/
theorem mem_publishTurns {ran : Except Fault (RunReport × Disk)}
    (hturn : turn ∈ sweep.publishTurns w c prepared gathered ran) :
    turn.outcome = .ok () ∧ turn.copy ∈ prepared ∧ turn = c.turn w turn.copy turn.before := by
  unfold publishTurns at hturn
  split at hturn
  · cases hturn
  · split at hturn
    · cases hturn
    · obtain ⟨copy, hcopy, s', rfl⟩ := Turn.exists_of_mem_row hturn
      exact ⟨rfl, (List.mem_filter.mp hcopy).1, rfl⟩

theorem repositories_publishTurns (w : World σ) (sweep : Sweep) (c : Campaign) (prepared : List Checkout)
    (gathered : Session σ) (ran : Except Fault (RunReport × Disk)) :
    ((sweep.publishTurns w c prepared gathered ran).map (·.repository)).Sublist
      (prepared.map (·.repository)) := by
  unfold publishTurns
  split
  · exact List.nil_sublist _
  · split
    · exact List.nil_sublist _
    · rw [(c.publish_takes w).repositories_row]
      exact List.filter_sublist.map _

theorem repositories_prepared (hgather : sweep.gather w c s = (.ok prepared, gathered)) :
    (prepared.map (·.repository)).Sublist (sweep.repositoriesOf c) :=
  (gather_spec (by rw [hgather])).1

theorem repository_mem_of_turn (hturn : turn ∈ sweep.turns w c s) :
    turn.repository ∈ sweep.repositoriesOf c := by
  rcases hgather : sweep.gather w c s with ⟨found, gathered⟩
  cases found with
  | error fault =>
      unfold turns at hturn
      rw [hgather] at hturn
      cases hturn
  | ok prepared =>
      have hcloned := repositories_cloneTurns w sweep c s
      have hkept := (Turn.repositories_kept (sound_cloneTurns w sweep c s)).subset
      rw [hcloned, ← repositories_prepareTurns] at hkept
      rw [turns_of_gather hgather rfl, List.mem_append, List.mem_append] at hturn
      rcases hturn with hturn | hturn | hturn
      · rw [← hcloned]
        exact List.mem_map_of_mem hturn
      · exact hkept (List.mem_map_of_mem hturn)
      · have hpublished := (repositories_publishTurns _ _ _ _ _ _).subset (List.mem_map_of_mem hturn)
        exact (repositories_prepared hgather).subset hpublished

theorem sound_of_turn (hturn : turn ∈ sweep.turns w c s) : turn.Sound w := by
  obtain ⟨before, after, hsplit⟩ := List.append_of_mem hturn
  have haccounts := outcomeOf_accounts w sweep c s
  rw [hsplit] at haccounts
  exact haccounts.split.2.1

/-- Nothing is remembered of a repository when it is prepared. -/
theorem current_of_cloned {copy : Checkout} (hcopy : copy ∈ Turn.kept (sweep.cloneTurns w c s)) :
    copy.current = none := by
  obtain ⟨turn, hturn, -, rfl⟩ := Turn.mem_kept.mp hcopy
  obtain ⟨given, hgiven, s', rfl⟩ := Turn.exists_of_mem_row hturn
  obtain ⟨r, -, rfl⟩ := List.mem_map.mp hgiven
  exact (Checkout.turn_sends { repository := r } (·.clone w) Repository.clone_sends s').2.current_eq

theorem prepares_of_turn (hturn : turn ∈ sweep.prepareTurns w c s) (hok : turn.outcome = .ok ()) :
    turn.repository.Prepares c.branch none turn.said (.ok ()) turn.left.current := by
  obtain ⟨copy, hcopy, s', rfl⟩ := Turn.exists_of_mem_row hturn
  rw [clonePass_eq_row] at hcopy
  have hprepares := (copy.turn_sends (·.prepare w c.branch) (Repository.prepare_sends c.branch) s').2
  rw [hok, current_of_cloned hcopy] at hprepares
  exact hprepares

end Whose

end Sweep

end CodeSweep
