import CodeSweep.Proofs.Sweep.Bystander
import CodeSweep.Proofs.Sweep.Publishing

/-! # Repositories do not interfere

A sweep takes all its repositories through the same passes, and they share a directory. In two worlds
that answer differently for one of them, the odd one, that one may fail in one sweep and go through in
the other, be changed or not, be published or not. No other repository is affected
(`outcomeOf_unaffected`): the same is said for it, its files end up the same, and so do its results,
whether it is left out, and its publication.

The argument follows the two sweeps side by side. Their lists of working copies are the same but for
the odd repository (`Checkout.Apart`), and a pass over such lists gives such lists and keeps the
sessions alike to a bystander (`keepAll_apart`, `publishEach_apart`). Between the passes the codemod is
run, which is a map over files (`run_alike`).

It takes a working directory in which no repository is a link: with one that leads into another,
whether there is something to clone depends on that other (`outcomeOf_affected_by_link`). -/

namespace CodeSweep

theorem Event.skips_of_none (r : Repository) {event : Event} (h : event.skipped? = none) :
    event.skips r = false := by
  simp [skips, h]

/-! ## Lists of working copies -/

/-- Two lists of working copies are the same, but for those of one repository. -/
inductive Checkout.Apart (a : Repository) : List Checkout → List Checkout → Prop
  | nil : Apart a [] []
  | left {copy copies copies'} (h : copy.repository = a) (rest : Apart a copies copies') :
      Apart a (copy :: copies) copies'
  | right {copy copies copies'} (h : copy.repository = a) (rest : Apart a copies copies') :
      Apart a copies (copy :: copies')
  | both {copy copies copies'} (h : copy.repository ≠ a) (rest : Apart a copies copies') :
      Apart a (copy :: copies) (copy :: copies')

namespace Checkout.Apart

variable {a : Repository} {copies copies' kept : List Checkout}

theorem refl (a : Repository) (copies : List Checkout) : Apart a copies copies := by
  induction copies with
  | nil => exact .nil
  | cons copy rest ih =>
      by_cases h : copy.repository = a
      · exact .left h (.right h ih)
      · exact .both h ih

theorem left_append (hkept : ∀ copy ∈ kept, copy.repository = a) (h : Apart a copies copies') :
    Apart a (kept ++ copies) copies' := by
  induction kept with
  | nil => exact h
  | cons copy rest ih =>
      have hrest := ih fun copy hcopy => hkept copy (List.mem_cons_of_mem _ hcopy)
      exact .left (hkept copy List.mem_cons_self) hrest

theorem right_append (hkept : ∀ copy ∈ kept, copy.repository = a) (h : Apart a copies copies') :
    Apart a copies (kept ++ copies') := by
  induction kept with
  | nil => exact h
  | cons copy rest ih =>
      have hrest := ih fun copy hcopy => hkept copy (List.mem_cons_of_mem _ hcopy)
      exact .right (hkept copy List.mem_cons_self) hrest

/-- What no working copy of that repository has, some of one list have if some of the other do. -/
theorem any_eq {p : Checkout → Bool} (h : Apart a copies copies')
    (hp : ∀ copy : Checkout, copy.repository = a → p copy = false) : copies.any p = copies'.any p := by
  induction h with
  | nil => rfl
  | left hcopy _ ih => rw [List.any_cons, hp _ hcopy, Bool.false_or, ih]
  | right hcopy _ ih => rw [List.any_cons, hp _ hcopy, Bool.false_or, ih]
  | both _ _ ih => rw [List.any_cons, List.any_cons, ih]

end Checkout.Apart

namespace Scene

variable {σ τ : Type} {k : Scene σ τ} {w w' : World σ} {b : Repository} {s t : Session σ}
  {copy : Checkout} {copies copies' : List Checkout}

/-! ## Passes -/

section Passes

variable {op op' : Repository → Git σ Unit}

/-- An operation on the odd repository is not seen, whether it is kept or told of. -/
theorem keepAll_odd (hb : b ∈ k.repositories) (hne : k.odd ≠ b)
    (hop : ∀ t, Git.Paired k.odd (Session.Beside fun s => k.Alike b s t) (op k.odd) (op k.odd))
    (hcopy : copy.repository = k.odd) (rest : List Checkout) (hst : k.Alike b s t) :
    ∃ kept s', Checkout.keepAll op (copy :: rest) s =
        (kept ++ (Checkout.keepAll op rest s').1, (Checkout.keepAll op rest s').2) ∧
      k.Alike b s' t ∧ ∀ copy ∈ kept, copy.repository = k.odd := by
  have hend := hop t { current := copy.current, session := s } { current := copy.current, session := s }
    rfl ⟨rfl, hst⟩
  have hperform := Checkout.perform_eq op copy s
  rw [hcopy] at hperform
  have hsession : k.Alike b (copy.perform op s).2 t := by
    rw [hperform]
    exact hend.session.2
  cases houtcome : (copy.perform op s).1.1 with
  | ok _ =>
      refine ⟨[(copy.perform op s).1.2], _, ?_, hsession, ?_⟩
      · rw [Checkout.keepAll_cons_of_ok houtcome]
        rfl
      · simpa [Checkout.perform_gives copy op s] using hcopy
  | error fault =>
      have hblame : fault.address = k.odd.address := by
        refine hend.blame fault ?_
        rw [hperform] at houtcome
        exact houtcome
      refine ⟨[], _, Checkout.keepAll_cons_of_error houtcome, hsession.tell_left ?_, by simp⟩
      have haddress : k.odd.address ≠ b.address :=
        fun heq => hne (Repository.eq_of_address k.odd_mem hb heq)
      simp [Event.skips, Event.skipped?, hblame, haddress]

/-- **A pass over working copies keeps them apart**, and the sessions alike to a bystander. -/
theorem keepAll_apart (op op' : Repository → Git σ Unit) (hb : b ∈ k.repositories) (hne : k.odd ≠ b)
    (hodd : ∀ t, Git.Paired k.odd (Session.Beside fun s => k.Alike b s t) (op k.odd) (op k.odd))
    (hodd' : ∀ t, Git.Paired k.odd (Session.Beside fun s => k.Alike b s t) (op' k.odd) (op' k.odd))
    (hother : ∀ r ∈ k.repositories, r ≠ k.odd → Git.Paired r (k.Alike b) (op r) (op' r))
    (hmem : ∀ copy ∈ copies, copy.repository ∈ k.repositories)
    (h : Checkout.Apart k.odd copies copies') (hst : k.Alike b s t) :
    Checkout.Apart k.odd (Checkout.keepAll op copies s).1 (Checkout.keepAll op' copies' t).1 ∧
      k.Alike b (Checkout.keepAll op copies s).2 (Checkout.keepAll op' copies' t).2 := by
  induction h generalizing s t with
  | nil => exact ⟨.nil, hst⟩
  | left hcopy _ ih =>
      obtain ⟨kept, s', hkeep, hst', hkept⟩ := keepAll_odd hb hne hodd hcopy _ hst
      obtain ⟨hapart, hend⟩ := ih (fun copy hcopy => hmem copy (List.mem_cons_of_mem _ hcopy)) hst'
      rw [hkeep]
      exact ⟨hapart.left_append hkept, hend⟩
  | right hcopy _ ih =>
      obtain ⟨kept, t', hkeep, hts', hkept⟩ := keepAll_odd hb hne hodd' hcopy _ hst.symm
      obtain ⟨hapart, hend⟩ := ih hmem hts'.symm
      rw [hkeep]
      exact ⟨hapart.right_append hkept, hend⟩
  | @both copy _ _ hcopy _ ih =>
      have hop := hother _ (hmem copy List.mem_cons_self) hcopy
      obtain ⟨hout, hst'⟩ := Checkout.perform_paired hop s t hst
      have hrest := fun other hother => hmem other (List.mem_cons_of_mem _ hother)
      cases houtcome : (copy.perform op s).1.1 with
      | ok _ =>
          rw [Checkout.keepAll_cons_of_ok houtcome,
            Checkout.keepAll_cons_of_ok (by rw [← hout, houtcome]), ← hout]
          obtain ⟨hapart, hend⟩ := ih hrest hst'
          refine ⟨.both ?_ hapart, hend⟩
          rwa [Checkout.perform_gives copy op s]
      | error fault =>
          rw [Checkout.keepAll_cons_of_error houtcome,
            Checkout.keepAll_cons_of_error (by rw [← hout, houtcome])]
          exact ih hrest (hst'.tell _)

end Passes

/-! ## Publishing -/

section Publishing

variable {c : Campaign} {roots roots' : List Path}

theorem publishOne_odd (hw : k.Confines w) (hb : b ∈ k.repositories) (hne : k.odd ≠ b)
    (hcopy : copy.repository = k.odd) (hst : k.Alike b s t) :
    k.Alike b (c.publishOne w copy s).2 t := by
  have hserved := odd_served hw hb hne t
  have hrequest := Session.paired_beside (x := k.odd.openRequest w c.request)
    (Q := fun s => k.Alike b s t) fun _ hs => hs.openRequest_left hw hb hne c.request
  rw [← hcopy] at hserved hrequest
  have hpaired := Campaign.publishOne_paired (c := c) hserved trivial (fun _ _ => trivial) hrequest
  exact (hpaired s s ⟨rfl, hst⟩).2.2

theorem publishOne_other (hw : k.Twins w w') (hcopy : copy.repository ∈ k.repositories)
    (hne : copy.repository ≠ k.odd) :
    Session.Paired (k.Alike b) (c.publishOne w copy) (c.publishOne w' copy) :=
  Campaign.publishOne_paired (other_served hw hcopy hne) trivial (fun _ _ => trivial)
    (openRequest_paired hw hcopy hne c.request)

/-- Publishing the odd repository, or not, is not seen, and adds no publication of a bystander. -/
theorem publishEach_odd (hw : k.Confines w) (hb : b ∈ k.repositories) (hne : k.odd ≠ b)
    (hcopy : copy.repository = k.odd) (rest : List Checkout) (hst : k.Alike b s t) :
    ∃ s', k.Alike b s' t ∧
      (c.publishEach w roots (copy :: rest) s).2 = (c.publishEach w roots rest s').2 ∧
      (c.publishEach w roots (copy :: rest) s).1.1.filter (·.address == b.address) =
        (c.publishEach w roots rest s').1.1.filter (·.address == b.address) := by
  cases hroots : roots.any (·.same copy.repository.path) with
  | true =>
      refine ⟨_, publishOne_odd (c := c) hw hb hne hcopy hst, ?_⟩
      rw [Campaign.publishEach_cons_of_mem hroots]
      simp [Campaign.repository_publishOne, hcopy, address_ne k.odd_mem hb hne]
  | false =>
      refine ⟨s, hst, ?_⟩
      rw [Campaign.publishEach_cons_of_not_mem hroots]
      exact ⟨rfl, rfl⟩

/-- **Publishing working copies that are apart publishes a bystander alike**, where the others have
changed alike. -/
theorem publishEach_apart (hw : k.Twins w w') (hb : b ∈ k.repositories) (hne : k.odd ≠ b)
    (hroots : ∀ r ∈ k.repositories, r ≠ k.odd → roots.any (·.same r.path) = roots'.any (·.same r.path))
    (hmem : ∀ copy ∈ copies, copy.repository ∈ k.repositories)
    (h : Checkout.Apart k.odd copies copies') (hst : k.Alike b s t) :
    (c.publishEach w roots copies s).1.1.filter (·.address == b.address) =
        (c.publishEach w' roots' copies' t).1.1.filter (·.address == b.address) ∧
      k.Alike b (c.publishEach w roots copies s).2 (c.publishEach w' roots' copies' t).2 := by
  induction h generalizing s t with
  | nil => exact ⟨rfl, hst⟩
  | left hcopy _ ih =>
      obtain ⟨s', hst', hsession, hpublished⟩ := publishEach_odd hw.left hb hne hcopy _ hst
      rw [hsession, hpublished]
      exact ih (fun copy hcopy => hmem copy (List.mem_cons_of_mem _ hcopy)) hst'
  | right hcopy _ ih =>
      obtain ⟨t', hts', hsession, hpublished⟩ := publishEach_odd hw.right hb hne hcopy _ hst.symm
      rw [hsession, hpublished]
      exact ih hmem hts'.symm
  | @both copy _ _ hcopy _ ih =>
      have hhere := hmem copy List.mem_cons_self
      have hrest := fun other hother => hmem other (List.mem_cons_of_mem _ hother)
      have hsame := hroots _ hhere hcopy
      cases hchanged : roots.any (·.same copy.repository.path) with
      | true =>
          obtain ⟨hout, hst'⟩ := publishOne_other (c := c) hw hhere hcopy s t hst
          obtain ⟨hpublished, hend⟩ := ih hrest hst'
          rw [Campaign.publishEach_cons_of_mem hchanged,
            Campaign.publishEach_cons_of_mem (by rw [← hsame, hchanged])]
          refine ⟨?_, hend⟩
          simp only [List.filter_cons, hout, hpublished]
      | false =>
          rw [Campaign.publishEach_cons_of_not_mem hchanged,
            Campaign.publishEach_cons_of_not_mem (by rw [← hsame, hchanged])]
          exact ih hrest hst

/-- That nothing changed is told before nothing is published. -/
theorem publish_eq (results : List FileResult) (copies : List Checkout) (s : Session σ) :
    ∃ told : List Event, (∀ r, ∀ event ∈ told, event.skips r = false) ∧
      c.publish w results copies s =
        c.publishEach w (Campaign.changedRoots results) copies { s with events := s.events ++ told } := by
  by_cases hnone : Campaign.changedRoots results = []
  · refine ⟨[.nothingTransformed c.codemod.name], by simp [Event.skips, Event.skipped?], ?_⟩
    rw [Campaign.publish_of_nil hnone, hnone, Campaign.publishEach_nil]
    rfl
  · refine ⟨[], by simp, ?_⟩
    rw [Campaign.publish_of_ne_nil hnone, List.append_nil]

end Publishing

end Scene

/-! ## Running the codemod -/

/-- What two walks find under a name that is not the one they differ in. -/
theorem Walked.filter_eq_of_beside {walked walked' : Walked} {gone name : String}
    (h : walked.beside gone = walked'.beside gone) (hne : name ≠ gone) :
    walked.files.filter (·.head? == some name) = walked'.files.filter (·.head? == some name) ∧
      walked.failed.filter (·.head? == some name) = walked'.failed.filter (·.head? == some name) := by
  have hunder : ∀ found : List (List String), found.filter (·.head? == some name) =
      (found.filter (·.head? != some gone)).filter (·.head? == some name) := by
    intro found
    rw [List.filter_filter]
    refine List.filter_congr fun names _ => ?_
    by_cases hhead : names.head? = some name <;> simp [hhead, hne]
  have hfiles : walked.files.filter (·.head? != some gone) = walked'.files.filter (·.head? != some gone) :=
    congrArg Walked.files h
  have hfailed : walked.failed.filter (·.head? != some gone) = walked'.failed.filter (·.head? != some gone) :=
    congrArg Walked.failed h
  rw [hunder walked.files, hunder walked.failed, hfiles, hfailed, ← hunder, ← hunder]
  exact ⟨rfl, rfl⟩

namespace Codemod

variable {c : Codemod} {o : RunOptions} {root : Path} {d d' : Disk} {base : Location} {walked : Walked}
  {results : List FileResult} {file : List String → File} {name : String} {names : List String}

/-- The repository directory that a result belongs to. -/
def ownerOf : FileResult → Path
  | .ok done => done.root
  | .error failed => failed.root

/-- Whether a result is a change. -/
def isChange : FileResult → Bool
  | .ok done => done.changed
  | .error _ => false

/-- The results that belong to a repository. -/
def resultsOf (r : Repository) (results : List FileResult) : List FileResult :=
  results.filter fun result => (ownerOf result).same r.path

theorem ownerOf_fateAt {f : File} : ownerOf (c.fateAt o root names f) = rootOf root names := by
  unfold fateAt fate
  repeat' split
  all_goals rfl

/-- A repository has a changed root exactly when one of its results is a change. -/
theorem any_changedRoots (r : Repository) (results : List FileResult) :
    (Campaign.changedRoots results).any (·.same r.path) = (resultsOf r results).any isChange := by
  simp only [Campaign.changedRoots, successes, resultsOf, List.any_map, List.any_filter, List.any_filterMap,
    Function.comp_def]
  congr 1
  funext result
  cases result with
  | error failed => simp [Except.toOption, isChange]
  | ok done => simp [Except.toOption, isChange, ownerOf, Bool.and_comm]

/-- The results of a repository are those of what was found under its name. -/
theorem PerFile.resultsOf_eq (h : c.PerFile root o d results d' base walked file) {r : Repository}
    (hpath : r.path = root.child r.name) (hname : '/' ∉ r.name.toList) :
    resultsOf r results =
      walkFailures root { failed := walked.failed.filter (·.head? == some r.name) } ++
        ((c.targets o walked).filter (·.head? == some r.name)).map
          fun names => c.fateAt o root names (file names) := by
  have hunder : ∀ names, names ∈ walked.files ∨ names ∈ walked.failed →
      (rootOf root names).same r.path = (names.head? == some r.name) := by
    intro names hnames
    obtain ⟨name, more, rfl, hentry⟩ := Disk.exists_name_of_mem_walk h.walk hnames
    rw [rootOf_cons, hpath, Bool.eq_iff_iff, Path.same_child_iff hentry hname]
    simp
  rw [resultsOf, h.results, walkFailures, walkFailures, List.filter_append, List.filter_map,
    List.filter_map]
  congr 2
  · exact List.filter_congr fun names hnames => hunder names (.inr hnames)
  · refine List.filter_congr fun names hnames => ?_
    rw [Function.comp_apply, ownerOf_fateAt]
    exact hunder names (.inl (h.inWalkOrder.subset hnames))

/-- A run tells nothing of repositories that are left out. -/
theorem skipped?_of_mem_events {report : RunReport} (h : c.run root o d = .ok (report, d'))
    {event : Event} (hevent : event ∈ report.events) : event.skipped? = none := by
  have htold : ∀ results : List FileResult, ∀ event ∈ results.filterMap (c.eventOf o),
      event.skipped? = none := by
    intro results event hevent
    obtain ⟨result, -, hresult⟩ := List.mem_filterMap.mp hevent
    cases result with
    | error failed =>
        cases hresult
        rfl
    | ok done =>
        rw [eventOf] at hresult
        split at hresult <;> cases hresult
        rfl
  unfold run at h
  split at h
  next => cases h
  next =>
    split at h
    next => cases h
    next base walked hwalk =>
      dsimp only at h
      split at h
      next =>
        cases h
        dsimp only at hevent
        split at hevent
        · exact htold _ event hevent
        · cases hevent
      next =>
        cases h
        dsimp only at hevent
        split at hevent
        · simp only [List.mem_append, List.mem_singleton] at hevent
          rcases hevent with ((hfailed | rfl) | hdone) | rfl
          · exact htold _ event hfailed
          · rfl
          · exact htold _ event hdone
          · rfl
        · cases hevent

end Codemod

namespace Scene

variable {σ τ : Type} {k : Scene σ τ} {c : Codemod} {sweep : Sweep} {d d' disk disk' : Disk}
  {prepared prepared' : List Checkout} {walked walked' : Walked} {name : String} {names more : List String}

/-- Whether a file is taken for one of a prepared repository does not depend on the odd one. -/
theorem isPrepared_eq (h : Checkout.Apart k.odd prepared prepared')
    (hname : Listing.isEntryName name = true) (hne : name ≠ k.odd.name) :
    Sweep.isPrepared prepared (Codemod.below ⟨""⟩ (name :: more)) =
      Sweep.isPrepared prepared' (Codemod.below ⟨""⟩ (name :: more)) := by
  rw [Sweep.isPrepared, Sweep.isPrepared, Codemod.head_components_below hname]
  refine h.any_eq fun copy hcopy => ?_
  rw [hcopy]
  exact beq_false_of_ne (Ne.symm hne)

theorem accepts_options (path : Path) :
    (sweep.options prepared).hooks.accepts path = Sweep.isPrepared prepared path := rfl

section Runs

variable (hapart : Checkout.Apart k.odd prepared prepared') (hwalk : d.walk k.work = .ok (k.base, walked))
  (hbeside : walked.beside k.odd.name = walked'.beside k.odd.name)

include hapart hwalk hbeside

/-- So the targets under the name of another repository are the same. -/
theorem targets_filter_eq (sweep : Sweep) (hne : name ≠ k.odd.name) :
    (c.targets (sweep.options prepared) walked).filter (·.head? == some name) =
      (c.targets (sweep.options prepared') walked').filter (·.head? == some name) := by
  obtain ⟨hfiles, -⟩ := Walked.filter_eq_of_beside hbeside hne
  refine (List.filter_comm _ _ _).trans (Eq.trans ?_ (List.filter_comm _ _ _))
  rw [← hfiles]
  refine List.filter_congr fun names hnames => ?_
  obtain ⟨hfound, hhead⟩ := List.mem_filter.mp hnames
  obtain ⟨name', more, rfl, hname'⟩ := Disk.exists_name_of_mem_walk hwalk (.inl hfound)
  have heq : name' = name := by simpa using hhead
  dsimp only
  rw [accepts_options, accepts_options, isPrepared_eq hapart hname' (heq ▸ hne)]

/-- And so is all that is written beside the odd repository. -/
theorem mem_targets_iff (hhead : names.head? ≠ some k.odd.name) :
    names ∈ c.targets (sweep.options prepared) walked ↔
      names ∈ c.targets (sweep.options prepared') walked' := by
  have hfiles : names ∈ walked.files ↔ names ∈ walked'.files := by
    have hmem := congrArg (names ∈ Walked.files ·) hbeside
    simpa [Walked.beside, hhead] using hmem
  rw [Codemod.mem_targets, Codemod.mem_targets, ← hfiles]
  refine and_congr_right fun hfound => ?_
  obtain ⟨name, more, rfl, hname⟩ := Disk.exists_name_of_mem_walk hwalk (.inl hfound)
  have hne : name ≠ k.odd.name := by simpa using hhead
  rw [accepts_options, accepts_options, isPrepared_eq hapart hname hne]

theorem rewrite_eq {place : Location} (hplace : ¬ k.place <+: place) (f : File) :
    c.rewrite (sweep.options prepared) k.work k.base (c.targets (sweep.options prepared) walked) place f =
      c.rewrite (sweep.options prepared') k.work k.base (c.targets (sweep.options prepared') walked')
        place f := by
  have hhead : ∀ names, k.base ++ names = place → names.head? ≠ some k.odd.name := by
    rintro names rfl hhead
    obtain ⟨more, rfl⟩ := List.head?_eq_some_iff.mp hhead
    exact hplace ⟨more, by simp [Scene.place]⟩
  by_cases htarget : ∃ names ∈ c.targets (sweep.options prepared) walked, k.base ++ names = place
  · obtain ⟨names, hnames, rfl⟩ := htarget
    have hnames' := (mem_targets_iff hapart hwalk hbeside (hhead names rfl)).mp hnames
    rw [Codemod.rewrite_of_mem hnames, Codemod.rewrite_of_mem hnames']
    rfl
  · rw [Codemod.rewrite_of_not_mem fun names hnames heq => htarget ⟨names, hnames, heq⟩,
      Codemod.rewrite_of_not_mem fun names hnames heq => htarget
        ⟨names, (mem_targets_iff hapart hwalk hbeside (hhead names heq)).mpr hnames, heq⟩]

end Runs

theorem Hosts.mapFiles (h : k.Hosts d) (g : Location → File → File) : k.Hosts (d.mapFiles g) := by
  refine ⟨h.opens.grows (Disk.grows_mapFiles d g), fun r hr target => ?_⟩
  rw [Disk.kind?_mapFiles]
  exact h.plain r hr target

/-- **A codemod run over disks that differ in the odd repository** fails on both alike, or gives every
other repository the same results and leaves disks that differ in the odd one only. -/
theorem run_alike (sweep : Sweep) (hdisk : d.without k.place = d'.without k.place) (hhosts : k.Hosts d)
    (hhosts' : k.Hosts d') (hapart : Checkout.Apart k.odd prepared prepared') :
    (∃ fault, c.run k.work (sweep.options prepared) d = .error fault ∧
        c.run k.work (sweep.options prepared') d' = .error fault) ∨
      ∃ report disk report' disk', c.run k.work (sweep.options prepared) d = .ok (report, disk) ∧
        c.run k.work (sweep.options prepared') d' = .ok (report', disk') ∧
        disk.without k.place = disk'.without k.place ∧ k.Hosts disk ∧ k.Hosts disk' ∧
        ∀ r ∈ k.repositories, r ≠ k.odd →
          Codemod.resultsOf r report.results = Codemod.resultsOf r report'.results := by
  rcases Disk.walk_eq_of_without hdisk (hhosts.opens.locate_congr hhosts'.opens)
      (fun loc hloc => hhosts.opens.eq_of_locate hloc) with
    ⟨fault, hwalk, hwalk'⟩ | ⟨walked, walked', hwalk, hwalk', hbeside⟩
  · exact .inl ⟨fault, Codemod.run_eq_error_iff.mpr (.inr ⟨rfl, hwalk⟩),
      Codemod.run_eq_error_iff.mpr (.inr ⟨rfl, hwalk'⟩)⟩
  · obtain ⟨report, disk, file, hrun, hfile⟩ := Codemod.exists_perFile (c := c)
      (o := sweep.options prepared) rfl hwalk
    obtain ⟨report', disk', file', hrun', hfile'⟩ := Codemod.exists_perFile (c := c)
      (o := sweep.options prepared') rfl hwalk'
    refine .inr ⟨report, disk, report', disk', hrun, hrun', ?_, ?_, ?_, fun r hr hne => ?_⟩
    · rw [hfile.tree, hfile'.tree]
      exact Disk.without_mapFiles_congr hdisk fun place f hplace =>
        rewrite_eq hapart hwalk hbeside hplace f
    · rw [hfile.tree]
      exact hhosts.mapFiles _
    · rw [hfile'.tree]
      exact hhosts'.mapFiles _
    · have hpath := (Repository.ofSpecs_spec hr).2
      have hslash := (Repository.name_spec hr).2
      have hother : r.name ≠ k.odd.name := fun heq => hne (Repository.eq_of_name hr k.odd_mem heq)
      obtain ⟨-, hfailed⟩ := Walked.filter_eq_of_beside hbeside hother
      have htargets := targets_filter_eq (c := c) hapart hwalk hbeside sweep hother
      rw [hfile.resultsOf_eq hpath hslash, hfile'.resultsOf_eq hpath hslash, hfailed, ← htargets]
      congr 1
      refine List.map_congr_left fun names hnames => ?_
      obtain ⟨htarget, hhead⟩ := List.mem_filter.mp hnames
      obtain ⟨more, rfl⟩ := List.head?_eq_some_iff.mp (by simpa using hhead)
      have htarget' : r.name :: more ∈ c.targets (sweep.options prepared') walked' := by
        rw [htargets] at hnames
        exact (List.mem_filter.mp hnames).1
      -- the file is the same on both disks, and so is what becomes of it
      have hlookup := hfile.files _ htarget
      rw [Disk.lookup?_eq_of_without hdisk hother, hfile'.files _ htarget', Option.some.injEq,
        Entry.file.injEq] at hlookup
      rw [hlookup]
      rfl

end Scene

/-! ## Sweeps -/

/-- Nothing that a sweep does for a repository differs between two of its runs. `disk` is what the
working directory was found on. -/
structure Repository.Unaffected {σ : Type} (b : Repository) (disk : Disk) (work : Path)
    (one other : SweepOutcome × Session σ) : Prop where
  /-- All that is asked and answered, in order. -/
  said : one.2.transcript.filter (·.concerns b) = other.2.transcript.filter (·.concerns b)
  /-- All that is in its directory. -/
  files : ∀ base, disk.Opens work base →
    one.2.disk.lookup? (base ++ [b.name]) = other.2.disk.lookup? (base ++ [b.name])
  results : Codemod.resultsOf b one.1.results = Codemod.resultsOf b other.1.results
  /-- Whether it is left out, and why. -/
  skipped : one.2.events.filter (·.skips b) = other.2.events.filter (·.skips b)
  publications : one.1.publications.filter (·.address == b.address) =
    other.1.publications.filter (·.address == b.address)

namespace Sweep

variable {σ τ : Type} {w w' : World σ} {sweep : Sweep} {c : Campaign} {s t : Session σ} {k : Scene σ τ}
  {b : Repository} {prepared prepared' : List Checkout}

/-- The repositories of a sweep with a codemod. -/
def repositoriesOf (sweep : Sweep) (c : Campaign) : List Repository :=
  Repository.ofSpecs (sweep.selected c) (sweep.workDir c)

/-- The scene of a sweep in which one repository may be answered differently. -/
def scene (sweep : Sweep) (c : Campaign) (view : σ → τ) (base : Location) {a : Repository}
    (ha : a ∈ sweep.repositoriesOf c)
    (hnames : ∀ r ∈ sweep.repositoriesOf c, r.name ≠ "." ∧ r.name ≠ "..") : Scene σ τ where
  specs := sweep.selected c
  work := sweep.workDir c
  base := base
  odd := a
  view := view
  odd_mem := ha
  names := hnames

section Apart

variable (hw : k.Twins w w') (hb : b ∈ k.repositories) (hne : k.odd ≠ b)

include hw hb hne

/-- Cloning and preparing, side by side. -/
theorem gather_apart (hspecs : k.specs = sweep.selected c) (hwork : k.work = sweep.workDir c)
    (hs : (sweep.enter c s).1 = .ok ()) (ht : (sweep.enter c t).1 = .ok ())
    (hst : k.Alike b (sweep.enter c s).2 (sweep.enter c t).2) :
    ∃ prepared prepared', (sweep.gather w c s).1 = .ok prepared ∧
      (sweep.gather w' c t).1 = .ok prepared' ∧ Checkout.Apart k.odd prepared prepared' ∧
      (∀ copy ∈ prepared, copy.repository ∈ k.repositories) ∧
      k.Alike b (sweep.gather w c s).2 (sweep.gather w' c t).2 := by
  have hcopies : ∀ copy ∈ sweep.copies c, copy.repository ∈ k.repositories := by
    intro copy hcopy
    obtain ⟨r, hr, rfl⟩ := List.mem_map.mp hcopy
    rwa [Scene.repositories, hspecs, hwork]
  obtain ⟨hcloned, hst'⟩ := Scene.keepAll_apart (·.clone w) (·.clone w') hb hne
    (fun t => Repository.clone_paired (Scene.odd_housed hw.left hb hne t))
    (fun t => Repository.clone_paired (Scene.odd_housed hw.right hb hne t))
    (fun r hr hodd => Repository.clone_paired (Scene.other_housed hw hr hodd))
    hcopies (.refl k.odd _) hst
  have hmem := Checkout.keepAll_forall hcopies (·.clone w) (sweep.enter c s).2
  obtain ⟨hprepared, hend⟩ := Scene.keepAll_apart (·.prepare w c.branch) (·.prepare w' c.branch) hb hne
    (fun t => Repository.prepare_paired (Scene.odd_served hw.left hb hne t) c.branch)
    (fun t => Repository.prepare_paired (Scene.odd_served hw.right hb hne t) c.branch)
    (fun r hr hodd => Repository.prepare_paired (Scene.other_served hw hr hodd) c.branch)
    hmem hcloned hst'
  rw [gather_of_ok hs, gather_of_ok ht]
  exact ⟨_, _, rfl, rfl, hprepared, Checkout.keepAll_forall hmem _ _, hend⟩

/-- Publishing, side by side, unless the sweep is dry. -/
theorem release_apart (sweep : Sweep) {results results' : List FileResult}
    (hresults : ∀ r ∈ k.repositories, r ≠ k.odd →
      Codemod.resultsOf r results = Codemod.resultsOf r results')
    (hmem : ∀ copy ∈ prepared, copy.repository ∈ k.repositories)
    (hapart : Checkout.Apart k.odd prepared prepared') (hst : k.Alike b s t) :
    (sweep.release w c results prepared s).1.filter (·.address == b.address) =
        (sweep.release w' c results' prepared' t).1.filter (·.address == b.address) ∧
      k.Alike b (sweep.release w c results prepared s).2 (sweep.release w' c results' prepared' t).2 := by
  unfold release
  split
  · exact ⟨rfl, hst⟩
  · obtain ⟨told, htold, hpublish⟩ := Scene.publish_eq (c := c) (w := w) results prepared s
    obtain ⟨told', htold', hpublish'⟩ := Scene.publish_eq (c := c) (w := w') results' prepared' t
    rw [hpublish, hpublish']
    refine Scene.publishEach_apart hw hb hne (fun r hr hodd => ?_) hmem hapart ?_
    · rw [Codemod.any_changedRoots, Codemod.any_changedRoots, hresults r hr hodd]
    · exact hst.told (htold b) (htold' b)

/-- A whole sweep, side by side, once its directory is there. -/
theorem outcomeOf_apart (hspecs : k.specs = sweep.selected c) (hwork : k.work = sweep.workDir c)
    (hs : (sweep.enter c s).1 = .ok ()) (ht : (sweep.enter c t).1 = .ok ())
    (hst : k.Alike b (sweep.enter c s).2 (sweep.enter c t).2) :
    Codemod.resultsOf b (sweep.outcomeOf w c s).1.results =
        Codemod.resultsOf b (sweep.outcomeOf w' c t).1.results ∧
      (sweep.outcomeOf w c s).1.publications.filter (·.address == b.address) =
        (sweep.outcomeOf w' c t).1.publications.filter (·.address == b.address) ∧
      k.Alike b (sweep.outcomeOf w c s).2 (sweep.outcomeOf w' c t).2 := by
  obtain ⟨prepared, prepared', hgather, hgather', hapart, hmem, hst'⟩ :=
    gather_apart hw hb hne hspecs hwork hs ht hst
  have hone := runOne_of_ok hgather
  have hone' := runOne_of_ok hgather'
  rcases Scene.run_alike (c := c.codemod) sweep hst'.same.disk hst'.hosts hst'.hosts' hapart with
    ⟨fault, hrun, hrun'⟩ | ⟨report, disk, report', disk', hrun, hrun', hdisk, hhosts, hhosts', hresults⟩
  · rw [hwork] at hrun hrun'
    rw [transform_of_error hrun] at hone
    rw [transform_of_error hrun'] at hone'
    rw [outcomeOf_of_error (by rw [hone]), outcomeOf_of_error (by rw [hone']), hone, hone']
    dsimp only
    exact ⟨rfl, rfl, hst'.tell _⟩
  · rw [hwork] at hrun hrun'
    -- what the run tells is of files only
    have hquiet : ∀ event ∈ report.events, event.skips b = false := fun _ hevent =>
      Event.skips_of_none b (Codemod.skipped?_of_mem_events hrun hevent)
    have hquiet' : ∀ event ∈ report'.events, event.skips b = false := fun _ hevent =>
      Event.skips_of_none b (Codemod.skipped?_of_mem_events hrun' hevent)
    have hran := (hst'.told hquiet hquiet').setDisk hdisk hhosts hhosts'
    obtain ⟨hpublished, hend⟩ := release_apart (c := c) hw hb hne sweep hresults hmem hapart hran
    rw [transform_of_ok hrun] at hone
    rw [transform_of_ok hrun'] at hone'
    rw [outcomeOf_of_ok (by rw [hone]), outcomeOf_of_ok (by rw [hone']), hone, hone']
    dsimp only
    exact ⟨hresults b hb hne.symm, hpublished, hend.tell _⟩

end Apart

/-- Sessions that are alike to a repository, with outcomes that are the same for it. -/
theorem unaffected_of_alike {disk : Disk} {one other : SweepOutcome × Session σ}
    (hb : b ∈ k.repositories) (hne : k.odd ≠ b) (hopens : disk.Opens k.work k.base)
    (hresults : Codemod.resultsOf b one.1.results = Codemod.resultsOf b other.1.results)
    (hpublications : one.1.publications.filter (·.address == b.address) =
      other.1.publications.filter (·.address == b.address))
    (hst : k.Alike b one.2 other.2) : b.Unaffected disk k.work one other := by
  refine ⟨hst.said, fun base hbase => ?_, hresults, hst.skipped, hpublications⟩
  cases hopens.unique hbase
  have hother : b.name ≠ k.odd.name := fun heq => hne (Repository.eq_of_name hb k.odd_mem heq).symm
  exact Disk.lookup?_eq_of_without hst.same.disk hother

/-- **A repository does not affect the others.** Two sweeps that begin alike, in worlds that answer
differently for the repository `a` only, do the same for any other repository `b`. -/
theorem outcomeOf_unaffected (w w' : World σ) (sweep : Sweep) (c : Campaign) (s : Session σ) (o : σ)
    (view : σ → τ) {a b : Repository} (ha : a ∈ sweep.repositoriesOf c)
    (hb : b ∈ sweep.repositoriesOf c) (hne : a ≠ b)
    (hnames : ∀ r ∈ sweep.repositoriesOf c, r.name ≠ "." ∧ r.name ≠ "..")
    (hview : view s.outside = view o)
    (hscene : ∀ base, (sweep.enter c s).2.disk.Opens (sweep.workDir c) base →
      (sweep.scene c view base ha hnames).Hosts (sweep.enter c s).2.disk ∧
        (sweep.scene c view base ha hnames).Twins w w') :
    b.Unaffected (sweep.enter c s).2.disk (sweep.workDir c) (sweep.outcomeOf w c s)
      (sweep.outcomeOf w' c { s with outside := o }) := by
  have henter : sweep.enter c { s with outside := o } =
      ((sweep.enter c s).1, { (sweep.enter c s).2 with outside := o }) := rfl
  cases hmade : (sweep.enter c s).1 with
  | error cause =>
      -- neither sweep gets beyond its directory
      have hmade' : (sweep.enter c { s with outside := o }).1 = .error cause := hmade
      rw [outcomeOf_of_enter_error hmade, outcomeOf_of_enter_error hmade', henter]
      exact ⟨rfl, fun _ _ => rfl, rfl, rfl, rfl⟩
  | ok _ =>
      obtain ⟨base, hopens⟩ := Disk.makeDirs_opens (d := s.disk) (p := sweep.workDir c) hmade
      obtain ⟨hhosts, htwins⟩ := hscene base hopens
      have hbegin : (sweep.scene c view base ha hnames).Alike b (sweep.enter c s).2
          (sweep.enter c { s with outside := o }).2 := ⟨⟨rfl, hview⟩, hhosts, hhosts, rfl, rfl⟩
      have hmade' : (sweep.enter c { s with outside := o }).1 = .ok () := hmade
      obtain ⟨hresults, hpublications, hend⟩ := outcomeOf_apart htwins hb hne rfl rfl hmade hmade' hbegin
      exact unaffected_of_alike (k := sweep.scene c view base ha hnames) hb hne hopens hresults
        hpublications hend

/-! ## Two worlds -/

/-- The first repository of a sweep over both. -/
def api : Repository :=
  { name := "api", address := "git@host:acme/api.git", path := ⟨"/ws/greet/api"⟩, tags := [] }

/-- The second one. -/
def web : Repository :=
  { name := "web", address := "git@host:acme/web.git", path := ⟨"/ws/greet/web"⟩, tags := [] }

/-- What is cloned for the first repository: a file that greets, and a directory. -/
def cloned : Entry :=
  .dir true (.file "a.txt" { content := .text "hi" } (.dir "sub" true .empty .empty))

/-- The disk after the first repository was cloned, if it was not there. -/
def fetched (d : Disk) : Disk :=
  if (d.lookup? ["ws", "greet", "api"]).isNone then
    d.setAt cloned (["ws", "greet"] ++ ["api"]) (by decide) (by decide)
  else d

/-- Cloning the first repository works or fails, cloning the second one always fails, and all else is
settled. -/
def cloning (works : Bool) : World Unit where
  run command state :=
    if command = api.cloneCommand ∧ works then (.ok {}, fetched state.1, state.2)
    else if command.args.head? = some "clone" then (.ok { success := false }, state)
    else settled.run command state
  hosting := settled.hosting

/-- A working directory in which the second repository is there. -/
def halfway : Session Unit where
  disk :=
    { root :=
        .dir "ws" true
          (.dir "greet" true
            (.dir "web" true (.file "a.txt" { content := .text "hi" } .empty) .empty) .empty) .empty
      proper := by decide }
  outside := ()

/-- A working directory in which a link stands for the second repository, into the first. -/
def linked : Session Unit where
  disk :=
    { root := .dir "ws" true (.dir "greet" true (.link "web" "api/sub" .empty) .empty) .empty
      proper := by decide }
  outside := ()

theorem repositoriesOf_both : both.repositoriesOf greetings = [api, web] := by decide +kernel

theorem without_fetched (d : Disk) :
    (fetched d).without ["ws", "greet", "api"] = d.without ["ws", "greet", "api"] := by
  unfold fetched
  split
  · exact Disk.without_setAt
  · rfl

theorem without_cloning (works : Bool) (command : Command) (p : Disk × Unit) :
    ((cloning works).run command p).2.1.without ["ws", "greet", "api"] =
      p.1.without ["ws", "greet", "api"] := by
  unfold cloning
  dsimp only
  split
  · exact without_fetched p.1
  · split <;> rfl

theorem api_mem : api ∈ both.repositoriesOf greetings := by
  simp [repositoriesOf_both]

theorem web_mem : web ∈ both.repositoriesOf greetings := by
  simp [repositoriesOf_both]

theorem eq_of_mem_both {r : Repository} (hr : r ∈ both.repositoriesOf greetings) : r = api ∨ r = web := by
  simpa [repositoriesOf_both] using hr

theorem names_both : ∀ r ∈ both.repositoriesOf greetings, r.name ≠ "." ∧ r.name ≠ ".." := by
  rw [repositoriesOf_both]
  decide

/-- The scene of the sweep over both, with the first repository as the odd one. -/
def pair : Scene Unit Unit := both.scene greetings (fun o => o) ["ws", "greet"] api_mem names_both

/-- Cloning the first repository neither moves the working directory nor makes a link. -/
theorem hosts_fetched {d : Disk} (h : pair.Hosts d) : pair.Hosts (fetched d) := by
  have hdir : ∃ listable inside, d.lookup? ["ws", "greet"] = some (.dir listable inside) := by
    rcases h.opens with ⟨htext, -⟩ | ⟨-, hdir⟩
    · exact absurd htext (by decide)
    · obtain ⟨listable, hkind⟩ := Disk.isDir_iff.mp hdir
      obtain ⟨inside, hlookup⟩ := Disk.kind?_eq_dir.mp hkind
      exact ⟨listable, inside, hlookup⟩
  obtain ⟨listable, inside, hlookup⟩ := hdir
  unfold fetched
  split
  next hnone =>
    refine ⟨h.opens.grows (Disk.grows_setAt (by simpa using hnone)), fun r hr target hlink => ?_⟩
    rcases eq_of_mem_both hr with rfl | rfl
    · have hset : (d.setAt cloned (["ws", "greet"] ++ ["api"]) (by decide) (by decide)).lookup?
          (["ws", "greet"] ++ ["api"]) = some cloned := Disk.lookup?_setAt_self hlookup
      cases (congrArg (Option.map Entry.kind) hset).symm.trans hlink
    · refine h.plain web web_mem target (Eq.trans ?_ hlink)
      exact congrArg (Option.map Entry.kind) (Disk.lookup?_eq_of_without Disk.without_setAt.symm (by decide))
  next => exact h

theorem cloning_confines (works : Bool) : pair.Confines (cloning works) := by
  refine ⟨fun command p _ _ => ⟨without_cloning works command p, rfl⟩, fun command p h => ?_, ?_⟩
  · unfold cloning
    dsimp only
    split
    · exact hosts_fetched h
    · split <;> exact h
  · rintro _ _ ⟨⟩ o
    exact ⟨rfl, fun _ => rfl⟩

theorem cloning_twins : pair.Twins (cloning true) (cloning false) := by
  refine ⟨cloning_confines true, cloning_confines false, fun command p q hodd _ _ hsame => ?_, ?_⟩
  · have hne : command ≠ api.cloneCommand := by
      rintro rfl
      cases hodd.symm.trans (Scene.owns_cloneCommand api)
    simp only [cloning, hne, false_and, if_false]
    split <;> exact ⟨rfl, hsame⟩
  · exact .service (fun _ _ _ _ h => ⟨rfl, h⟩) fun _ _ _ _ _ h => ⟨rfl, h⟩

theorem outcomeOf_unaffected_by_failed_clone :
    (both.outcomeOf (cloning true) greetings halfway).1.publications.map (·.address) =
        [api.address, web.address] ∧
      (both.outcomeOf (cloning false) greetings halfway).1.publications.map (·.address) =
        [web.address] ∧
      web.Unaffected (both.enter greetings halfway).2.disk (both.workDir greetings)
        (both.outcomeOf (cloning true) greetings halfway)
        (both.outcomeOf (cloning false) greetings halfway) := by
  refine ⟨by decide +kernel, by decide +kernel, ?_⟩
  refine outcomeOf_unaffected (cloning true) (cloning false) both greetings halfway () (fun o => o)
    api_mem web_mem (by decide) names_both rfl fun base hopens => ?_
  have hlocate : (both.enter greetings halfway).2.disk.locate (both.workDir greetings) =
      .ok ["ws", "greet"] := by decide +kernel
  cases hopens.eq_of_locate hlocate
  refine ⟨⟨hopens, fun r hr target hlink => ?_⟩, cloning_twins⟩
  rcases eq_of_mem_both hr with rfl | rfl <;> cases hlink

/-- **A link from one repository into another lets one affect the other.** The two worlds differ only
in that the first repository can be cloned, which changes its own directory only. Where a link leads
into that, the second repository is taken to be there in one of them, and worked on; in the other it is
cloned, and left out. -/
theorem outcomeOf_affected_by_link :
    api ∈ both.repositoriesOf greetings ∧ web ∈ both.repositoriesOf greetings ∧
      (∀ r ∈ both.repositoriesOf greetings, r.name ≠ "." ∧ r.name ≠ "..") ∧
      (∀ command, command ≠ api.cloneCommand →
        (cloning true).run command = (cloning false).run command) ∧
      (cloning true).hosting = (cloning false).hosting ∧
      (∀ works command p, ((cloning works).run command p).2.1.without ["ws", "greet", "api"] =
        p.1.without ["ws", "greet", "api"]) ∧
      (both.outcomeOf (cloning true) greetings linked).2.events.any (·.skips web) = false ∧
      (both.outcomeOf (cloning false) greetings linked).2.events.any (·.skips web) = true ∧
      ¬ web.Unaffected (both.enter greetings linked).2.disk (both.workDir greetings)
        (both.outcomeOf (cloning true) greetings linked)
        (both.outcomeOf (cloning false) greetings linked) := by
  have hkept : (both.outcomeOf (cloning true) greetings linked).2.events.any (·.skips web) = false := by
    decide +kernel
  have hleft : (both.outcomeOf (cloning false) greetings linked).2.events.any (·.skips web) = true := by
    decide +kernel
  refine ⟨api_mem, web_mem, names_both, fun command hne => ?_, rfl, without_cloning, hkept, hleft,
    fun h => ?_⟩
  · simp [cloning, hne]
  · obtain ⟨event, hevent, hskips⟩ := List.any_eq_true.mp hleft
    have hmem := List.mem_filter.mpr ⟨hevent, hskips⟩
    rw [← h.skipped, List.mem_filter] at hmem
    exact absurd (List.any_eq_true.mpr ⟨event, hmem⟩) (by rw [hkept]; decide)

end Sweep

end CodeSweep
