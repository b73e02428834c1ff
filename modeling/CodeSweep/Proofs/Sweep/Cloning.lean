import CodeSweep.Proofs.Sweep.Turns
import CodeSweep.Proofs.Workspace.Homes

/-! # What becomes of the repositories that are asked for

A list of repositories is cloned in three steps, and each of them may leave entries out:

    entries ──name──▶ named ──distinct──▶ repositories ──clone──▶ working copies
               │                │                         │
            no name       name was taken               reported

A failed clone is reported, and an entry of a name that was taken is of a repository that is there
already. Nothing tells of an entry whose address gives no name: it is the one way for an entry to get
lost (`cloneAll_accounts_iff`). -/

namespace CodeSweep

variable {σ : Type}

/-- What is reported of an address. -/
def Event.reportsOf (address : String) (told : List Event) : List Event :=
  told.filter (·.skipped? == some address)

namespace Checkout

/-- An entry is accounted for, where `before` are the entries before it, `copies` is what is returned
and `told` is what is reported: its name was taken, or it is returned and not reported, or it is reported
once and not returned. -/
inductive Accounted (before : List RepositorySpec) (copies : List Checkout) (told : List Event)
    (spec : RepositorySpec) : Prop
  | taken {earlier name} (hearlier : earlier ∈ before)
      (htaken : Repository.nameOf? earlier.address = some name)
      (hname : Repository.nameOf? spec.address = some name)
  | returned {copy} (hcopy : copy ∈ copies) (haddress : copy.repository.address = spec.address)
      (htags : copy.repository.tags = Ordered.names spec.tags)
      (hquiet : Event.reportsOf spec.address told = [])
  | reported {fault} (honce : Event.reportsOf spec.address told = [.repositoryFailed fault])
      (hgone : ∀ copy ∈ copies, copy.repository.address ≠ spec.address)

end Checkout

/-! ## Turns at being cloned -/

namespace Turn

variable {w : World σ} {turn : Turn σ} {turns : List (Turn σ)} {specs before : List RepositorySpec}
  {spec : RepositorySpec} {location : Path}

/-- What is reported of a turn is of its repository. -/
theorem Sound.skipped?_eq (h : turn.Sound w) {event : Event} (hevent : event ∈ turn.reported) :
    event.skipped? = some turn.repository.address := by
  unfold reported at hevent
  split at hevent
  next => cases hevent
  next fault hfault =>
    obtain rfl := List.mem_singleton.mp hevent
    exact congrArg some (h.blame fault hfault)

section Row

variable (hsound : ∀ turn ∈ turns, turn.Sound w)
  (hturns : turns.map (·.repository) = Repository.ofSpecs specs location)

include hturns

theorem repository_mem (hturn : turn ∈ turns) : turn.repository ∈ Repository.ofSpecs specs location :=
  hturns ▸ List.mem_map_of_mem hturn

theorem nodup_repositories : (turns.map (·.repository)).Nodup :=
  hturns ▸ (Repository.nodup_names specs location).of_map

include hsound

/-- What is reported of a repository is what its turn reports. -/
theorem reportsOf_eq (hturn : turn ∈ turns) :
    Event.reportsOf turn.repository.address (turns.flatMap (·.reported)) = turn.reported := by
  have hown : ∀ other ∈ turns, ∀ event ∈ other.reported,
      (event.skipped? == some turn.repository.address) = decide (other.repository = turn.repository) := by
    intro other hother event hevent
    rw [(hsound other hother).skipped?_eq hevent, Bool.eq_iff_iff]
    have hsame : other.repository.address = turn.repository.address ↔
        other.repository = turn.repository :=
      ⟨Repository.eq_of_address (repository_mem hturns hother) (repository_mem hturns hturn),
        congrArg Repository.address⟩
    simpa using hsame
  rw [Event.reportsOf, filter_own hown, filter_eq_singleton (nodup_repositories hturns) hturn]
  simp

theorem repository_mem_of_kept {copy : Checkout} (hcopy : copy ∈ kept turns) :
    copy.repository ∈ Repository.ofSpecs specs location := by
  have hmem := (repositories_kept hsound).subset (List.mem_map_of_mem hcopy)
  rwa [hturns] at hmem

/-- An entry whose repository has a turn is accounted for by it. -/
theorem accounted (hturn : turn ∈ turns)
    (hspec : Repository.ofAddress? spec.address location spec.tags = some turn.repository) :
    Checkout.Accounted before (kept turns) (turns.flatMap (·.reported)) spec := by
  obtain ⟨haddress, htags⟩ : turn.repository.address = spec.address ∧
      turn.repository.tags = Ordered.names spec.tags := by
    obtain ⟨name, -, hrepository⟩ := Option.map_eq_some_iff.mp hspec
    rw [← hrepository]
    exact ⟨rfl, rfl⟩
  have hreports := reportsOf_eq hsound hturns hturn
  rw [haddress, reported] at hreports
  cases houtcome : turn.outcome with
  | ok _ =>
      rw [houtcome] at hreports
      have hleft := (hsound turn hturn).left
      refine .returned (mem_kept.mpr ⟨turn, hturn, houtcome, rfl⟩) ?_ ?_ hreports
      · rw [hleft, haddress]
      · rw [hleft, htags]
  | error fault =>
      rw [houtcome] at hreports
      refine .reported hreports fun copy hcopy hsame => ?_
      -- a copy of that address would be one of the repository, whose only turn failed
      have hrepo : copy.repository = turn.repository :=
        Repository.eq_of_address (repository_mem_of_kept hsound hturns hcopy)
          (repository_mem hturns hturn) (hsame.trans haddress.symm)
      refine repository_ne_of_mem_kept hsound (nodup_repositories hturns) hturn houtcome ?_
      rw [← hrepo]
      exact List.mem_map_of_mem hcopy

/-- What is returned or reported is a repository of the run, and so has a name. -/
theorem named_of_accounted
    (h : Checkout.Accounted before (kept turns) (turns.flatMap (·.reported)) spec) :
    Repository.nameOf? spec.address ≠ none := by
  have hnamed : ∀ r ∈ Repository.ofSpecs specs location, r.address = spec.address →
      Repository.nameOf? spec.address ≠ none := by
    intro r hr haddress
    rw [← haddress, (Repository.ofSpecs_spec hr).1]
    exact nofun
  cases h with
  | taken _ _ hname =>
      rw [hname]
      exact nofun
  | returned hcopy haddress => exact hnamed _ (repository_mem_of_kept hsound hturns hcopy) haddress
  | @reported fault honce =>
      have htold : Event.repositoryFailed fault ∈
          Event.reportsOf spec.address (turns.flatMap (·.reported)) := by
        rw [honce]
        exact List.mem_singleton_self _
      obtain ⟨hevent, haddress⟩ := List.mem_filter.mp htold
      obtain ⟨turn, hturn, hreported⟩ := List.mem_flatMap.mp hevent
      refine hnamed turn.repository (repository_mem hturns hturn) ?_
      rw [(hsound turn hturn).skipped?_eq hreported] at haddress
      simpa using haddress

end Row

end Turn

/-! ## Cloning -/

namespace Checkout

variable {w : World σ} {location : Path} {s : Session σ}

/-- The turns of the repositories at being cloned. -/
def clones (w : World σ) (specs : List RepositorySpec) (location : Path) (s : Session σ) :
    List (Turn σ) :=
  Turn.row (turn (·.clone w)) ((Repository.ofSpecs specs location).map fun r => { repository := r })
    (Session.makeDirs location s).2

/-- Where the location can be made, cloning is a row of turns. -/
theorem cloneAll_accounts (w : World σ) (specs : List RepositorySpec)
    (hlocation : (s.disk.makeDirs location).1 = .ok ()) :
    (cloneAll w specs location s).1 = .ok (Turn.kept (clones w specs location s)) ∧
      Turn.Accounts w s (clones w specs location s) (cloneAll w specs location s).2 := by
  have hmade : (Session.makeDirs location s).1 = .ok () := hlocation
  have hmaking : s.Quietly (Session.makeDirs location s).2 := ⟨rfl, rfl, rfl⟩
  simp only [cloneAll, Session.bind_apply, hmade, keepAll_eq_row]
  exact ⟨rfl, ((clone_takes w).row_accounts _ _).after_quietly hmaking⟩

theorem cloneAll_of_ok (w : World σ) (specs : List RepositorySpec)
    (hlocation : (s.disk.makeDirs location).1 = .ok ()) :
    (cloneAll w specs location s).1 = .ok (Turn.kept (clones w specs location s)) ∧
      (cloneAll w specs location s).2.reports =
        s.reports ++ (clones w specs location s).flatMap (·.reported) := by
  obtain ⟨hreturned, haccounts⟩ := cloneAll_accounts w specs hlocation
  exact ⟨hreturned, haccounts.reports⟩

/-- Where it cannot be made, nothing is said. -/
theorem cloneAll_of_error (w : World σ) (specs : List RepositorySpec) {cause : IoFault}
    (hlocation : (s.disk.makeDirs location).1 = .error cause) :
    (cloneAll w specs location s).1 = .error (.io cause) ∧
      Turn.Accounts w s [] (cloneAll w specs location s).2 := by
  have hmade : (Session.makeDirs location s).1 = .error cause := hlocation
  simp only [cloneAll, Session.bind_apply, hmade]
  exact ⟨rfl, .nothing ⟨rfl, rfl, rfl⟩⟩

/-- **An entry is accounted for exactly when its address gives a name.** -/
theorem cloneAll_accounts_iff (w : World σ) (specs : List RepositorySpec) (location : Path)
    (s : Session σ) (hlocation : (s.disk.makeDirs location).1 = .ok ()) :
    ∃ copies told, (cloneAll w specs location s).1 = .ok copies ∧
      (cloneAll w specs location s).2.reports = s.reports ++ told ∧
      ∀ before spec after, specs = before ++ spec :: after →
        (Accounted before copies told spec ↔ ¬ Repository.Nameless spec.address) := by
  obtain ⟨hreturned, hreports⟩ := cloneAll_of_ok w specs hlocation
  have hsound : ∀ turn ∈ clones w specs location s, turn.Sound w :=
    fun _ => (clone_takes w).sound_of_mem
  have hturns : (clones w specs location s).map (·.repository) = Repository.ofSpecs specs location :=
    (clone_takes w).repositories_row_fresh _ _
  refine ⟨_, _, hreturned, hreports, fun before spec after hspecs => ?_⟩
  rw [← Repository.nameOf?_eq_none_iff]
  constructor
  · exact Turn.named_of_accounted hsound hturns
  · intro hnamed
    obtain ⟨name, hname⟩ := Option.ne_none_iff_exists'.mp hnamed
    by_cases htaken : ∃ earlier ∈ before, Repository.nameOf? earlier.address = some name
    · obtain ⟨earlier, hearlier, hsame⟩ := htaken
      exact .taken hearlier hsame hname
    -- the first entry of its name has a repository, and that has a turn
    · obtain ⟨r, hspec, hrname⟩ : ∃ r, Repository.ofAddress? spec.address location spec.tags = some r ∧
          r.name = name := by
        rw [Repository.ofAddress?, hname]
        exact ⟨_, rfl, rfl⟩
      have hmem : r ∈ Repository.ofSpecs specs location := by
        rw [hspecs]
        refine Repository.mem_ofSpecs_of_first hspec fun earlier hearlier hsame => ?_
        exact htaken ⟨earlier, hearlier, hrname ▸ hsame⟩
      rw [← hturns] at hmem
      obtain ⟨turn, hturn, rfl⟩ := List.mem_map.mp hmem
      exact Turn.accounted hsound hturns hturn hspec

/-- A world in which one repository cannot be cloned. -/
def refusing : World Unit where
  run c state := (.ok { success := c.args != ["clone", "git@host:acme/api.git", "api"] }, state)
  hosting := .gh

/-- Three repositories, two of them of one name. -/
def requested : List RepositorySpec :=
  [⟨"git@host:acme/web.git", ["frontend"]⟩, ⟨"git@host:acme/api.git", ["backend"]⟩,
    ⟨"git@host:fork/web.git", []⟩]

theorem cloneAll_accounts_iff_requested :
    ∃ copies told,
      (cloneAll refusing requested ⟨"/ws"⟩ { disk := {}, outside := () }).1 = .ok copies ∧
      ∀ before spec after, requested = before ++ spec :: after →
        Accounted before copies told spec := by
  obtain ⟨copies, told, hreturned, -, hall⟩ := cloneAll_accounts_iff refusing requested ⟨"/ws"⟩
    { disk := {}, outside := () } (by decide +kernel)
  refine ⟨copies, told, hreturned, fun before spec after hspecs => ?_⟩
  rw [hall before spec after hspecs, ← Repository.nameOf?_eq_none_iff]
  have hnamed : ∀ spec ∈ requested, Repository.nameOf? spec.address ≠ none := by decide +kernel
  exact hnamed spec (hspecs ▸ List.mem_append_right _ List.mem_cons_self)

/-- An entry whose address ends in nothing but an extension gets lost: it is neither returned nor
reported, and no entry is before it. -/
theorem cloneAll_loses_nameless :
    ((({} : Disk).makeDirs ⟨"/ws"⟩).1 = .ok ()) ∧
      (cloneAll refusing [⟨"git@host:acme/.git", ["frontend"]⟩] ⟨"/ws"⟩
        { disk := {}, outside := () }).1 = .ok [] ∧
      (cloneAll refusing [⟨"git@host:acme/.git", ["frontend"]⟩] ⟨"/ws"⟩
        { disk := {}, outside := () }).2.events = [] ∧
      ¬ Accounted [] [] [] ⟨"git@host:acme/.git", ["frontend"]⟩ := by
  refine ⟨by decide +kernel, ?_, ?_, ?_⟩
  · rfl
  · decide +kernel
  · intro h
    cases h with
    | taken hearlier => cases hearlier
    | returned hcopy => cases hcopy
    | reported honce => cases honce

end Checkout

end CodeSweep
