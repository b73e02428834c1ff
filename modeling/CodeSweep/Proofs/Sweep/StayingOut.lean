import CodeSweep.Proofs.Sweep.Rounds

/-! # A repository that fails stays out

A sweep works on its repositories in several passes, and each pass goes on with the working copies that
the pass before it kept. A repository that is reported is therefore not seen again: nothing more is
asked for it, the codemod is given none of its files, and it is not published (`StaysOut`). One that is
not reported is cloned if it was not there, prepared, and, if files in it changed, committed, pushed and
put up for a pull request, in that order and only as far as it goes (`Repository.Completes`).

Both are read off the turns of the sweep (`outcomeOf_stays_out`). In each pass a repository has one turn
at most, and all that is said in a turn concerns its repository alone; so that a failed turn is the last
one of its repository (`turns_pairwise`), and what concerns a repository is what is said in its turns
(`Turn.filter_own`).

The files of a repository are what lies under its path (`Disk.Under`), and the codemod takes files by the
names of entries in the working directory. So it spares them where the repository's place is its own. A link
there may lead into another repository, whose files they are as well (`outcomeOf_reaches_left_out`). -/

namespace CodeSweep

variable {σ : Type}

/-! ## Rows of turns -/

namespace Turn

variable {w : World σ} {turn : Turn σ} {turns turns' : List (Turn σ)} {r : Repository}

/-- After a turn that failed it is not the same repository's turn again. -/
def Leaves (turn later : Turn σ) : Prop :=
  ∀ fault, turn.outcome = .error fault → later.repository ≠ turn.repository

theorem pairwise_leaves (hnodup : (turns.map (·.repository)).Nodup) : turns.Pairwise Leaves :=
  (List.pairwise_map.mp hnodup).imp fun hne _ _ heq => hne heq.symm

/-- A pass over what another pass kept. -/
theorem pairwise_append (hsound : ∀ turn ∈ turns, turn.Sound w)
    (hnodup : (turns.map (·.repository)).Nodup) (hlater : turns'.Pairwise Leaves)
    (hkept : turns'.map (·.repository) ⊆ (kept turns).map (·.repository)) :
    (turns ++ turns').Pairwise Leaves := by
  refine List.pairwise_append.mpr ⟨pairwise_leaves hnodup, hlater, ?_⟩
  intro turn hturn later hlater fault hfault heq
  refine repository_ne_of_mem_kept hsound hnodup hturn hfault (heq ▸ hkept ?_)
  exact List.mem_map_of_mem hlater

/-- Whose turn it was, and whether it went through. -/
def view (turn : Turn σ) : Repository × Bool := (turn.repository, turn.outcome.isOk)

theorem failed_of_view (h : turn.view = (r, false)) :
    turn.repository = r ∧ ∃ fault, turn.outcome = .error fault := by
  obtain ⟨hr, hout⟩ := Prod.mk.inj h
  exact ⟨hr, isOk_eq_false_iff.mp hout⟩

theorem ok_of_view (hr : turn.repository = r) (h : turn.view ≠ (r, false)) : turn.outcome = .ok () := by
  rw [view, hr] at h
  apply isOk_iff.mp
  by_contra hfailed
  exact h (by rw [Bool.eq_false_iff.mpr hfailed])

end Turn

/-! ## Stages of a repository -/

namespace Repository

variable {w : World σ} {r : Repository}

/-- Getting hold of a repository: it is cloned with success, unless something is there already. -/
inductive Obtains (r : Repository) : Bool → List Exchange → Prop
  | present : Obtains r true []
  | cloned {reply} (h : Reply.succeeded reply = true) : Obtains r false [.command r.cloneCommand reply]

/-- All that is said for a repository that is not left out. It is got hold of, depending on whether it is
`there`, then prepared, and, where it is `published`, committed, pushed and put up for a pull request. -/
inductive Completes (r : Repository) (c : Campaign) (there : Bool) (published : Prop) :
    List Exchange → Prop
  | intro {t₁ t₂ t₃ b} (obtain : r.Obtains there t₁) (prepare : r.Prepares c.branch none t₂ (.ok ()) b)
      (release : published ∧ c.Releases r b t₃ ∨ ¬ published ∧ t₃ = []) :
      Completes r c there published (t₁ ++ (t₂ ++ t₃))

/-- A clone that succeeds says nothing if something is there, and is one command otherwise. -/
theorem clone_obtains (w : World σ) (r : Repository) (d : Desk σ) :
    ∃ t, d.session.Leads w t ((r.clone w).finish d).2.session ∧
      (((r.clone w).finish d).1 = .ok () → r.Obtains (d.session.disk.exists? r.path) t) := by
  have hget : (get : Git σ (Desk σ)).finish d = (.ok d, d) := rfl
  unfold clone
  rw [Git.finish_bind, hget]
  dsimp only
  split
  next hthere =>
    rw [hthere]
    exact ⟨[], .nothing rfl rfl, fun _ => .present⟩
  next hthere =>
    rw [Bool.eq_false_iff.mpr hthere]
    -- from here on the clone no longer looks at the disk, and its behaviour is that of its commands
    refine (Git.sends_lift_bind (c := d.current) (R := fun t _ => t = [])
      (B := fun t out _ => out = .ok () → r.Obtains false t)
      (fun s => ⟨[], .nothing rfl rfl, rfl⟩) ?_) d rfl
    rintro t made rfl
    cases made with
    | error cause => exact Git.sends_throw (by simp)
    | ok _ =>
        refine Git.sends_call_bind fun reply => ?_
        cases reply with
        | error cause => exact Git.sends_throw (by simp)
        | ok o =>
            dsimp only
            split
            next ho => exact Git.sends_pure fun _ => .cloned ho
            next => exact Git.sends_throw (by simp)

end Repository

namespace Checkout

variable {w : World σ} {copy : Checkout} {s : Session σ}

theorem turn_obtains (h : (copy.turn (·.clone w) s).outcome = .ok ()) :
    copy.repository.Obtains (s.disk.exists? copy.repository.path) (copy.turn (·.clone w) s).said := by
  obtain ⟨t, hleads, hobtains⟩ :=
    copy.repository.clone_obtains w { current := copy.current, session := s }
  have hended : s.Leads w t (copy.turn (·.clone w) s).after := by
    rw [turn, perform_eq]
    exact hleads.report _
  rw [Turn.said_eq hended]
  rw [turn, perform_eq] at h
  exact hobtains h

end Checkout

/-! ## The turns of one repository -/

namespace Sweep

variable {w : World σ} {sweep : Sweep} {c : Campaign} {s : Session σ} {r : Repository} {turn : Turn σ}
  {prepared : List Checkout} {gathered : Session σ}

/-- **A turn that fails is the last one of its repository.** -/
theorem turns_pairwise (w : World σ) (sweep : Sweep) (c : Campaign) (s : Session σ) :
    (sweep.turns w c s).Pairwise Turn.Leaves := by
  unfold turns
  split
  next => exact .nil
  next prepared gathered hgather =>
    have hsub := (Turn.repositories_kept (sound_prepareTurns w sweep c s)).subset
    have hpublished : ∀ ran, (sweep.publishTurns w c prepared gathered ran).map (·.repository) ⊆
        (Turn.kept (sweep.prepareTurns w c s)).map (·.repository) := by
      intro ran
      rw [← prepared_eq hgather]
      exact (repositories_publishTurns w sweep c prepared gathered ran).subset
    refine Turn.pairwise_append (sound_cloneTurns w sweep c s) (nodup_cloneTurns w sweep c s)
      (Turn.pairwise_append (sound_prepareTurns w sweep c s) (nodup_prepareTurns w sweep c s) ?_
        (hpublished _)) ?_
    -- publishing leaves no repository out
    · refine List.pairwise_of_forall_mem_list ?_
      intro turn hturn later _ fault hfault
      rw [(mem_publishTurns hturn).1] at hfault
      cases hfault
    · rw [List.map_append, ← repositories_prepareTurns]
      exact List.append_subset.mpr ⟨List.Subset.refl _, fun r hr => hsub (hpublished _ hr)⟩

/-- A repository whose turn failed is not prepared. -/
theorem not_prepared_of_failed (hgather : sweep.gather w c s = (.ok prepared, gathered))
    (hturn : turn ∈ sweep.turns w c s) {fault : GitFault} (hfault : turn.outcome = .error fault) :
    turn.repository ∉ prepared.map (·.repository) := by
  have hsub := (Turn.repositories_kept (sound_prepareTurns w sweep c s)).subset
  rw [turns_of_gather hgather rfl, List.mem_append, List.mem_append] at hturn
  rw [prepared_eq hgather]
  rcases hturn with hturn | hturn | hturn
  · intro hmem
    have hkept := hsub hmem
    rw [repositories_prepareTurns] at hkept
    exact Turn.repository_ne_of_mem_kept (sound_cloneTurns w sweep c s) (nodup_cloneTurns w sweep c s)
      hturn hfault hkept
  · exact Turn.repository_ne_of_mem_kept (sound_prepareTurns w sweep c s)
      (nodup_prepareTurns w sweep c s) hturn hfault
  · rw [(mem_publishTurns hturn).1] at hfault
    cases hfault

section Names

variable (hnames : ∀ r ∈ sweep.repositoriesOf c, r.name ≠ "." ∧ r.name ≠ "..")

include hnames

/-- What concerns one repository of a sweep concerns no other. -/
theorem concerns_other {r' : Repository} {e : Exchange} (hr : r ∈ sweep.repositoriesOf c)
    (hr' : r' ∈ sweep.repositoriesOf c) (hne : r ≠ r') (h : e.concerns r = true) :
    e.concerns r' = false := by
  have hmem : ∀ b, b ∈ sweep.repositoriesOf c →
      b ∈ (sweep.scene c (fun _ : Unit => ()) [] hr hnames).repositories := fun _ hb => hb
  cases e with
  | command command reply =>
      have howns : (command == r.cloneCommand || command.cwd == r.path) = true := h
      rcases Bool.or_eq_true_iff.mp howns with hclone | hcwd
      · cases eq_of_beq hclone
        exact Scene.owns_clone (hmem r hr) (hmem r' hr') hne
      · obtain ⟨cwd, program, args⟩ := command
        cases eq_of_beq hcwd
        exact Scene.owns_in (hmem r hr) (hmem r' hr') hne program args
  | defaultBranch address answer =>
      cases eq_of_beq h
      exact Scene.address_ne (hmem r hr) (hmem r' hr') hne
  | pullRequest address request answer =>
      cases eq_of_beq h
      exact Scene.address_ne (hmem r hr) (hmem r' hr') hne

/-- What is said in a turn concerns a repository exactly when it is its turn. -/
theorem concerns_iff (hr : r ∈ sweep.repositoriesOf c) (hturn : turn ∈ sweep.turns w c s) :
    ∀ e ∈ turn.said, e.concerns r = decide (turn.repository = r) := by
  intro e he
  have hown := (sound_of_turn hturn).concerns e he
  by_cases heq : turn.repository = r
  · rw [decide_eq_true heq, ← heq]
    exact hown
  · rw [decide_eq_false heq]
    exact concerns_other hnames (repository_mem_of_turn hturn) hr heq hown

end Names

/-- The turns of a prepared working copy at being published: one, if its repository changed. -/
theorem publishTurns_filter (gathered : Session σ) (report : RunReport) (disk : Disk) {copy : Checkout}
    (hnodup : (prepared.map (·.repository)).Nodup) (hcopy : copy ∈ prepared) (hdry : sweep.dry = false) :
    (copy ∈ Campaign.touched (Campaign.changedRoots report.results) prepared ∧
        ∃ turn, (sweep.publishTurns w c prepared gathered (.ok (report, disk))).filter
            (fun turn => turn.repository = copy.repository) = [turn] ∧
          c.Releases copy.repository copy.current turn.said) ∨
      (copy ∉ Campaign.touched (Campaign.changedRoots report.results) prepared ∧
        (sweep.publishTurns w c prepared gathered (.ok (report, disk))).filter
          (fun turn => turn.repository = copy.repository) = []) := by
  have hrow : sweep.publishTurns w c prepared gathered (.ok (report, disk)) =
      Turn.row (c.turn w) (Campaign.touched (Campaign.changedRoots report.results) prepared)
        (transformed gathered report disk) := by
    simp [publishTurns, hdry]
  have hrepositories := (c.publish_takes w).repositories_row
    (Campaign.touched (Campaign.changedRoots report.results) prepared) (transformed gathered report disk)
  have hsub : (Campaign.touched (Campaign.changedRoots report.results) prepared).Sublist prepared :=
    List.filter_sublist
  rw [hrow]
  by_cases htouched : copy ∈ Campaign.touched (Campaign.changedRoots report.results) prepared
  · refine .inl ⟨htouched, ?_⟩
    have hmem := List.mem_map_of_mem (f := (·.repository)) htouched
    rw [← hrepositories] at hmem
    obtain ⟨turn, hturn, hsame⟩ := List.mem_map.mp hmem
    refine ⟨turn, ?_, ?_⟩
    · rw [← hsame]
      refine Turn.filter_eq_singleton ?_ hturn
      rw [hrepositories]
      exact hnodup.sublist (hsub.map _)
    · obtain ⟨other, hother, s', rfl⟩ := Turn.exists_of_mem_row hturn
      cases List.inj_on_of_nodup_map hnodup (hsub.subset hother) hcopy hsame
      exact (c.turn_releases w copy s').2
  · refine .inr ⟨htouched, List.filter_eq_nil_iff.mpr fun turn hturn heq => htouched ?_⟩
    obtain ⟨other, hother, s', rfl⟩ := Turn.exists_of_mem_row hturn
    have hsame : other.repository = copy.repository := of_decide_eq_true heq
    cases List.inj_on_of_nodup_map hnodup (hsub.subset hother) hcopy hsame
    exact hother

end Sweep

/-! ## Files that are spared -/

namespace Codemod

/-- A run spares what lies under a path: nothing there is transformed, and nothing is written. -/
structure Spares (c : Codemod) (root : Path) (o : RunOptions) (d : Disk) (p : Path) : Prop where
  unread : ∀ base walked, d.walk root = .ok (base, walked) → ∀ target ∈ c.targets o walked,
    ∀ names, ¬ d.Under p names (base ++ target)
  unwritten : ∀ report d', c.run root o d = .ok (report, d') → ∀ names loc, d.Under p names loc →
    d'.lookup? loc = d.lookup? loc

/-- What lies under the path of an entry that is no link is spared, if nothing under its name is wanted. -/
theorem spares_of_not_accepts {c : Codemod} {root : Path} {o : RunOptions} {d : Disk} {name : String}
    (hname : Listing.isEntryName name = true) (hunlinked : d.Unlinked root name)
    (h : ∀ more, o.hooks.accepts (below ⟨""⟩ (name :: more)) = false) :
    c.Spares root o d (root.child name) := by
  have hunread : ∀ base walked, d.walk root = .ok (base, walked) → ∀ target ∈ c.targets o walked,
      ∀ names, ¬ d.Under (root.child name) names (base ++ target) := by
    intro base walked hwalk target htarget names hunder
    obtain ⟨base', hopens, -, hloc⟩ := Disk.under_child hunder hname hunlinked
    obtain rfl := hopens.eq_of_locate (Disk.walk_eq_ok.mp hwalk).1
    obtain ⟨-, haccepts, -⟩ := mem_targets.mp htarget
    rw [List.append_cancel_left hloc, h names] at haccepts
    cases haccepts
  refine ⟨hunread, fun report d' hrun names loc hunder => ?_⟩
  obtain ⟨base, walked, file, hfile⟩ := perFile_of_run hrun
  rw [hfile.tree, Disk.lookup?_mapFiles]
  cases hentry : d.lookup? loc with
  | none => rfl
  | some entry =>
      rw [Option.map_some, Option.some.injEq]
      refine Entry.mapFiles_eq_self (Disk.proper_of_lookup? hentry) fun more f => ?_
      -- what is rewritten is a target, and none of them lies under the path
      refine rewrite_of_not_mem fun target htarget heq => ?_
      obtain ⟨place, hlocate, rfl⟩ := hunder
      refine hunread base walked hfile.walk target htarget (names ++ more) ⟨place, hlocate, ?_⟩
      rw [heq, List.append_assoc]

end Codemod

namespace Sweep

variable {w : World σ} {sweep : Sweep} {c : Campaign} {s : Session σ} {r : Repository} {turn : Turn σ}
  {prepared : List Checkout} {gathered : Session σ}

/-- The codemod spares a repository that is not prepared, unless a link stands in its place. -/
theorem spares_of_not_prepared (hr : r ∈ sweep.repositoriesOf c)
    (hentry : Listing.isEntryName r.name = true)
    (hprepared : (prepared.map (·.repository)).Sublist (sweep.repositoriesOf c))
    (hnot : r ∉ prepared.map (·.repository)) {d : Disk} (hunlinked : d.Unlinked (sweep.workDir c) r.name) :
    c.codemod.Spares (sweep.workDir c) (sweep.options prepared) d r.path := by
  rw [(Repository.ofSpecs_spec hr).2]
  refine Codemod.spares_of_not_accepts hentry hunlinked fun more => ?_
  rw [Bool.eq_false_iff]
  intro haccepts
  obtain ⟨copy, hcopy, hname⟩ := exists_prepared hentry haccepts
  have hmem := List.mem_map_of_mem (f := (·.repository)) hcopy
  exact hnot (Repository.eq_of_name (hprepared.subset hmem) hr hname ▸ hmem)

/-- What is published is of prepared repositories. -/
theorem publications_of_outcomeOf {publication : Publication}
    (h : publication ∈ (sweep.outcomeOf w c s).1.publications) :
    ∃ prepared gathered, sweep.gather w c s = (.ok prepared, gathered) ∧
      ∃ r ∈ prepared.map (·.repository), publication.address = r.address := by
  have hgoes := sweep.outcomeOf_goes w c s
  generalize sweep.outcomeOf w c s = ended at h hgoes
  cases hgoes with
  | nowhere => cases h
  | stopped => cases h
  | @through prepared gathered report disk _ hgather hrun =>
      refine ⟨prepared, gathered, hgather, ?_⟩
      dsimp only [release] at h
      split at h
      · cases h
      · have hmem := List.mem_map_of_mem (f := (·.address)) h
        rw [(c.publish_spec w report.results prepared _).1] at hmem
        obtain ⟨copy, hcopy, heq⟩ := List.mem_map.mp hmem
        exact ⟨copy.repository, List.mem_map_of_mem (List.mem_filter.mp hcopy).1, heq.symm⟩

/-- A repository stays out of the rest of a sweep: nothing that is said in `later` turns concerns it, it is
not published, and none of its files is transformed or written, unless a link stands in its place when the
codemod is run. -/
structure StaysOut (w : World σ) (sweep : Sweep) (c : Campaign) (s : Session σ) (r : Repository)
    (later : List (Turn σ)) : Prop where
  silent : ∀ turn ∈ later, ∀ e ∈ turn.said, e.concerns r = false
  spared : ∀ prepared gathered, sweep.gather w c s = (.ok prepared, gathered) →
    gathered.disk.Unlinked (sweep.workDir c) r.name →
    c.codemod.Spares (sweep.workDir c) (sweep.options prepared) gathered.disk r.path
  unpublished : ∀ publication ∈ (sweep.outcomeOf w c s).1.publications, publication.address ≠ r.address

/-- Files of a repository are to be published. -/
def HasToPublish (sweep : Sweep) (outcome : SweepOutcome) (r : Repository) : Prop :=
  sweep.dry = false ∧
    ∃ done ∈ Codemod.successes outcome.results, done.changed = true ∧ done.root = r.path

/-- A prepared working copy is released exactly when files of its repository are to be published. -/
theorem releases_of_prepared {copy : Checkout} {said : List Exchange}
    (hgather : sweep.gather w c s = (.ok prepared, gathered)) (hcopy : copy ∈ prepared)
    (hsaid : said = ((sweep.publishTurns w c prepared gathered
      (c.codemod.run (sweep.workDir c) (sweep.options prepared) gathered.disk)).filter
        (fun turn => turn.repository = copy.repository)).flatMap (·.said)) :
    sweep.HasToPublish (sweep.outcomeOf w c s).1 copy.repository ∧
        c.Releases copy.repository copy.current said ∨
      ¬ sweep.HasToPublish (sweep.outcomeOf w c s).1 copy.repository ∧ said = [] := by
  have hprepared := repositories_prepared hgather
  have hgoes := sweep.outcomeOf_goes w c s
  generalize sweep.outcomeOf w c s = ended at hgoes ⊢
  cases hgoes with
  | nowhere henter =>
      rw [gather_of_error henter] at hgather
      cases hgather
  | stopped _ hgather' hrun =>
      cases hgather.symm.trans hgather'
      rw [hrun] at hsaid
      refine .inr ⟨?_, hsaid⟩
      rintro ⟨-, done, hdone, -⟩
      cases hdone
  | @through _ _ report disk _ hgather' hrun =>
      cases hgather.symm.trans hgather'
      rw [hrun] at hsaid
      cases hdry : sweep.dry with
      | true =>
          refine .inr ⟨fun hpublishes => ?_, by simpa [publishTurns, hdry] using hsaid⟩
          cases hdry.symm.trans hpublishes.1
      | false =>
          have htouched := mem_touched_iff hprepared hrun hcopy
          rcases publishTurns_filter (w := w) (c := c) gathered report disk
              ((nodup_repositoriesOf sweep c).sublist hprepared) hcopy hdry with
            ⟨hmem, turn, hfilter, hreleases⟩ | ⟨hmem, hfilter⟩
          · rw [hfilter, List.flatMap_singleton] at hsaid
            exact .inl ⟨⟨hdry, htouched.mp hmem⟩, hsaid ▸ hreleases⟩
          · rw [hfilter] at hsaid
            exact .inr ⟨fun hpublishes => hmem (htouched.mpr hpublishes.2), hsaid⟩

section Names

variable (hnames : ∀ r ∈ sweep.repositoriesOf c, r.name ≠ "." ∧ r.name ≠ "..")

include hnames

theorem staysOut_of_failed {before after : List (Turn σ)} {fault : GitFault}
    (hsplit : sweep.turns w c s = before ++ turn :: after) (hfault : turn.outcome = .error fault) :
    sweep.StaysOut w c s turn.repository after := by
  have hturn : turn ∈ sweep.turns w c s := by simp [hsplit]
  have hr := repository_mem_of_turn hturn
  have hentry := Repository.isEntryName_of_name hr (hnames _ hr)
  refine ⟨fun later hlater e he => ?_, fun prepared gathered hgather hunlinked => ?_,
    fun publication hpub heq => ?_⟩
  · have hpairwise := turns_pairwise w sweep c s
    rw [hsplit] at hpairwise
    have hleaves := (List.pairwise_cons.mp (List.pairwise_append.mp hpairwise).2.1).1 later hlater
    have hmem : later ∈ sweep.turns w c s := by simp [hsplit, hlater]
    rw [concerns_iff hnames hr hmem e he]
    exact decide_eq_false (hleaves fault hfault)
  · exact spares_of_not_prepared hr hentry (repositories_prepared hgather)
      (not_prepared_of_failed hgather hturn hfault) hunlinked
  · obtain ⟨prepared, gathered, hgather, r', hr', haddress⟩ := publications_of_outcomeOf hpub
    have hsame := Repository.eq_of_address ((repositories_prepared hgather).subset hr') hr
      (haddress.symm.trans heq)
    exact not_prepared_of_failed hgather hturn hfault (hsame ▸ hr')

/-- A repository that is not left out has a turn in each pass, and completes them in order. -/
theorem completes_of_kept (hr : r ∈ sweep.repositoriesOf c) (henter : (sweep.enter c s).1 = .ok ())
    (hkept : ∀ turn ∈ sweep.turns w c s, turn.repository = r → turn.outcome = .ok ()) :
    ∃ turn ∈ sweep.cloneTurns w c s, turn.repository = r ∧
      r.Completes c (turn.before.disk.exists? r.path) (sweep.HasToPublish (sweep.outcomeOf w c s).1 r)
        (((sweep.turns w c s).flatMap (·.said)).filter (·.concerns r)) := by
  rw [Turn.filter_own fun turn hturn => concerns_iff hnames hr hturn]
  obtain ⟨prepared, gathered, hgather⟩ := exists_gathered (w := w) henter
  have hturns := turns_of_gather hgather rfl
  -- its turn at being cloned
  have hcloned : r ∈ (sweep.cloneTurns w c s).map (·.repository) := by
    rwa [repositories_cloneTurns]
  obtain ⟨cloning, hcloning, rfl⟩ := List.mem_map.mp hcloned
  have hcloneOk := hkept cloning (by simp [hturns, hcloning]) rfl
  -- its turn at being prepared
  have hprepared : cloning.repository ∈ (sweep.prepareTurns w c s).map (·.repository) := by
    rw [repositories_prepareTurns, ← (sound_cloneTurns w sweep c s cloning hcloning).left]
    exact List.mem_map_of_mem (Turn.mem_kept.mpr ⟨cloning, hcloning, hcloneOk, rfl⟩)
  obtain ⟨preparing, hpreparing, hsame⟩ := List.mem_map.mp hprepared
  have hprepareOk := hkept preparing (by simp [hturns, hpreparing]) hsame
  have hleft : preparing.left ∈ prepared := by
    rw [prepared_eq hgather]
    exact Turn.mem_kept.mpr ⟨preparing, hpreparing, hprepareOk, rfl⟩
  have hrepository : preparing.left.repository = cloning.repository :=
    (sound_prepareTurns w sweep c s preparing hpreparing).left.trans hsame
  have hobtains : cloning.repository.Obtains (cloning.before.disk.exists? cloning.repository.path)
      cloning.said := by
    obtain ⟨copy, -, s', rfl⟩ := Turn.exists_of_mem_row hcloning
    exact Checkout.turn_obtains hcloneOk
  have hprepares := prepares_of_turn hpreparing hprepareOk
  have hreleases := releases_of_prepared hgather hleft rfl
  rw [hrepository] at hreleases
  rw [hsame] at hprepares
  have hfilter := Turn.filter_eq_singleton (nodup_prepareTurns w sweep c s) hpreparing
  rw [hsame] at hfilter
  rw [hturns, List.filter_append, List.filter_append, hfilter,
    Turn.filter_eq_singleton (nodup_cloneTurns w sweep c s) hcloning, List.flatMap_append,
    List.flatMap_append, List.flatMap_singleton, List.flatMap_singleton]
  exact ⟨cloning, hcloning, rfl, .intro hobtains hprepares hreleases⟩

end Names

/-- **A repository that fails stays out, and one that does not goes through all stages in order.** The
turns of a sweep are all that is said and reported in it. After a turn that is reported to have failed,
its repository stays out of all that is still to come. For a repository of which none is reported, what
is said is to get hold of it, to prepare it, and to publish it if files in it changed; unless the sweep
ends before its first turn. -/
theorem outcomeOf_stays_out (w : World σ) (sweep : Sweep) (c : Campaign) (s : Session σ)
    (hnames : ∀ r ∈ sweep.repositoriesOf c, r.name ≠ "." ∧ r.name ≠ "..") :
    Turn.Accounts w s (sweep.turns w c s) (sweep.outcomeOf w c s).2 ∧
      (∀ before turn after fault, sweep.turns w c s = before ++ turn :: after →
        turn.outcome = .error fault → fault.address = turn.repository.address ∧
          turn.after.reports = turn.before.reports ++ [.repositoryFailed fault] ∧
          Turn.Accounts w turn.after after (sweep.outcomeOf w c s).2 ∧
          sweep.StaysOut w c s turn.repository after) ∧
      ∀ r ∈ sweep.repositoriesOf c,
        (∀ turn ∈ sweep.turns w c s, turn.repository = r → turn.outcome = .ok ()) →
        sweep.turns w c s = [] ∨ ∃ turn ∈ sweep.cloneTurns w c s, turn.repository = r ∧
          r.Completes c (turn.before.disk.exists? r.path) (sweep.HasToPublish (sweep.outcomeOf w c s).1 r)
            (((sweep.turns w c s).flatMap (·.said)).filter (·.concerns r)) := by
  have haccounts := outcomeOf_accounts w sweep c s
  refine ⟨haccounts, fun before turn after fault hsplit hfault => ?_, fun r hr hkept => ?_⟩
  · rw [hsplit] at haccounts
    obtain ⟨-, hsound, hlater⟩ := haccounts.split
    have hreports := hsound.reports
    rw [Turn.reported, hfault] at hreports
    exact ⟨hsound.blame fault hfault, hreports, hlater, staysOut_of_failed hnames hsplit hfault⟩
  · cases henter : (sweep.enter c s).1 with
    | error cause => exact .inl (turns_of_enter_error henter)
    | ok _ => exact .inr (completes_of_kept hnames hr henter hkept)

/-- A file that greets, and nothing else. -/
def greeting : Listing := .file "a.txt" { content := .text "hi" } .empty

/-- A working directory with two repositories, which both greet. -/
def adjacent : Session Unit where
  disk :=
    { root :=
        .dir "ws" true
          (.dir "greet" true
            (.dir "api" true (.dir "sub" true greeting .empty) (.dir "web" true greeting .empty)) .empty)
          .empty
      proper := by decide }
  outside := ()

/-- A working directory in which a link stands for the second repository, into the first, which greets. -/
def overlapping : Session Unit where
  disk :=
    { root :=
        .dir "ws" true
          (.dir "greet" true
            (.dir "api" true (.dir "sub" true greeting .empty) (.link "web" "api/sub" .empty)) .empty)
          .empty
      proper := by decide }
  outside := ()

/-- Nothing can be done in the second repository, and all else is settled. -/
def balking : World Unit where
  run command state :=
    if command.cwd = web.path then (.ok { success := false }, state) else settled.run command state
  hosting := settled.hosting

/-- The second repository cannot be prepared. It stays out, and its file is spared; the first one
completes. -/
theorem outcomeOf_stays_out_adjacent :
    (both.turns balking greetings adjacent).map Turn.view =
        [(api, true), (web, true), (api, true), (web, false), (api, true)] ∧
      (∃ before failed last, both.turns balking greetings adjacent = before ++ [failed, last] ∧
        both.StaysOut balking greetings adjacent web [last]) ∧
      (∃ prepared gathered, both.gather balking greetings adjacent = (.ok prepared, gathered) ∧
        gathered.disk.kind? ["ws", "greet", "web", "a.txt"] = some .file ∧
        gathered.disk.Under web.path ["a.txt"] ["ws", "greet", "web", "a.txt"] ∧
        greetings.codemod.Spares (both.workDir greetings) (both.options prepared) gathered.disk web.path) ∧
      api.Completes greetings true
        (both.HasToPublish (both.outcomeOf balking greetings adjacent).1 api)
        (((both.turns balking greetings adjacent).flatMap (·.said)).filter (·.concerns api)) := by
  have hview : (both.turns balking greetings adjacent).map Turn.view =
      [(api, true), (web, true), (api, true), (web, false), (api, true)] := by decide +kernel
  obtain ⟨-, hfailed, hcompletes⟩ := outcomeOf_stays_out balking both greetings adjacent names_both
  have hstays : ∃ before failed last, both.turns balking greetings adjacent = before ++ [failed, last] ∧
      both.StaysOut balking greetings adjacent web [last] := by
    obtain ⟨before, rest, hturns, -, hrest⟩ :=
      List.map_eq_append_iff.mp (hview.trans (List.take_append_drop 3 _).symm)
    obtain ⟨failed, more, rfl, hweb, hmore⟩ := List.map_eq_cons_iff.mp hrest
    obtain ⟨last, none, rfl, -, hnone⟩ := List.map_eq_cons_iff.mp hmore
    obtain rfl := List.map_eq_nil_iff.mp hnone
    obtain ⟨hrepository, fault, hfault⟩ := Turn.failed_of_view hweb
    obtain ⟨-, -, -, hout⟩ := hfailed before failed [last] fault hturns hfault
    rw [hrepository] at hout
    exact ⟨before, failed, last, hturns, hout⟩
  refine ⟨hview, hstays, ?_, ?_⟩
  · obtain ⟨_, _, last, -, hstays⟩ := hstays
    have henter : (both.enter greetings adjacent).1 = .ok () := by decide +kernel
    obtain ⟨prepared, gathered, hgather⟩ := exists_gathered (w := balking) henter
    obtain ⟨hwork, hlocate, hdir, hfile⟩ :
        (both.gather balking greetings adjacent).2.disk.locate (both.workDir greetings) =
          .ok ["ws", "greet"] ∧
        (both.gather balking greetings adjacent).2.disk.locate web.path = .ok ["ws", "greet", "web"] ∧
        (both.gather balking greetings adjacent).2.disk.kind? ["ws", "greet", "web"] = some (.dir true) ∧
        (both.gather balking greetings adjacent).2.disk.kind? ["ws", "greet", "web", "a.txt"] =
          some .file := by decide +kernel
    rw [hgather] at hwork hlocate hdir hfile
    exact ⟨prepared, gathered, hgather, hfile, ⟨_, hlocate, rfl⟩,
      hstays.spared prepared gathered hgather (Disk.unlinked_of_isDir hwork hdir)⟩
  · have hkept : ∀ turn ∈ both.turns balking greetings adjacent, turn.repository = api →
        turn.outcome = .ok () := by
      intro turn hturn hapi
      have hmem := List.mem_map_of_mem (f := Turn.view) hturn
      rw [hview] at hmem
      refine Turn.ok_of_view hapi fun hfailed => ?_
      rw [hfailed] at hmem
      exact absurd hmem (by decide)
    have hthere : ∀ turn ∈ both.cloneTurns balking greetings adjacent, turn.repository = api →
        turn.before.disk.exists? api.path = true := by decide +kernel
    rcases hcompletes api api_mem hkept with hnone | ⟨turn, hturn, hapi, hdone⟩
    · rw [hnone] at hview
      cases hview
    · rw [hthere turn hturn hapi] at hdone
      exact hdone

/-- **What a link leads to is not spared.** A repository failed, and a link stands in its place, into one
that was prepared. The file that lies under its path is rewritten, as it is a file of the other one. -/
theorem outcomeOf_reaches_left_out :
    (∀ r ∈ both.repositoriesOf greetings, r.name ≠ "." ∧ r.name ≠ "..") ∧
      web ∈ both.repositoriesOf greetings ∧
      (both.outcomeOf balking greetings overlapping).2.events.any (·.skips web) = true ∧
      (overlapping.disk.read ⟨"/ws/greet/web/a.txt"⟩).toOption = some "hi" ∧
      ((both.outcomeOf balking greetings overlapping).2.disk.read ⟨"/ws/greet/web/a.txt"⟩).toOption =
        some "hi!" ∧
      ∃ prepared gathered, both.gather balking greetings overlapping = (.ok prepared, gathered) ∧
        ¬ greetings.codemod.Spares (both.workDir greetings) (both.options prepared) gathered.disk
          web.path := by
  refine ⟨names_both, web_mem, by decide +kernel, by decide +kernel, by decide +kernel, ?_⟩
  have henter : (both.enter greetings overlapping).1 = .ok () := by decide +kernel
  obtain ⟨prepared, gathered, hgather⟩ := exists_gathered (w := balking) henter
  have hlocate : (both.gather balking greetings overlapping).2.disk.locate web.path =
      .ok ["ws", "greet", "api", "sub"] := by decide +kernel
  have htargets : (both.gather balking greetings overlapping).1.toOption.any (fun prepared =>
      ((both.gather balking greetings overlapping).2.disk.walk (both.workDir greetings)).toOption.any
        fun found => found.1 == ["ws", "greet"] &&
          (greetings.codemod.targets (both.options prepared) found.2).contains ["api", "sub", "a.txt"]) =
        true := by decide +kernel
  rw [hgather] at hlocate htargets
  refine ⟨prepared, gathered, hgather, fun hspares => ?_⟩
  cases hwalk : gathered.disk.walk (both.workDir greetings) with
  | error fault => simp [hwalk, Except.toOption] at htargets
  | ok found =>
      obtain ⟨base, walked⟩ := found
      obtain ⟨rfl, htarget⟩ : base = ["ws", "greet"] ∧
          ["api", "sub", "a.txt"] ∈ greetings.codemod.targets (both.options prepared) walked := by
        simpa [hwalk, Except.toOption] using htargets
      exact hspares.unread _ _ hwalk _ htarget ["a.txt"] ⟨_, hlocate, rfl⟩

end Sweep

end CodeSweep
