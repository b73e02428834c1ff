import CodeSweep.Proofs.Git.Run

/-! # Operations side by side

An operation on a repository looks at the session through few things only: the replies to its own
commands, the answers of the hosting platform, and what it remembers. Run side by side in two sessions
where these are the same, it therefore does the same in both. `Git.Paired r R x y` says so for a
relation `R` between the sessions: the two end alike, with related sessions, and where they fail it is
`r` that they blame.

`Repository.Served` is what `R` has to withstand: the commands, the questions and the reports of one
repository. Each operation then has one lemma (`prepare_paired`, `push_paired`, ..). What holds of a
single run is the case of a session beside itself (`Session.Beside`). -/

namespace CodeSweep

variable {σ α β : Type} {R : Session σ → Session σ → Prop}

/-- The address of the repository that an event reports to be left out. -/
def Event.skipped? : Event → Option String
  | .repositoryFailed fault => some fault.address
  | _ => none

namespace Session

/-- Run in related sessions, two computations give the same and leave related sessions. -/
def Paired (R : Session σ → Session σ → Prop) (x y : StateM (Session σ) α) : Prop :=
  ∀ s t, R s t → (x s).1 = (y t).1 ∧ R (x s).2 (y t).2

theorem paired_pure (a : α) : Paired R (pure a) (pure a) := fun _ _ hst => ⟨rfl, hst⟩

/-- What a computation gives is always so. -/
def Gives (Q : α → Prop) (x : StateM (Session σ) α) : Prop := ∀ s, Q (x s).1

theorem gives_any (x : StateM (Session σ) α) : Gives (fun _ => True) x := fun _ => trivial

theorem Gives.pure {Q : α → Prop} {a : α} (h : Q a) : Gives Q (pure a : StateM (Session σ) α) :=
  fun _ => h

theorem Gives.bind {P : α → Prop} {Q : β → Prop} {x : StateM (Session σ) α}
    {f : α → StateM (Session σ) β} (hx : Gives P x) (hf : ∀ a, P a → Gives Q (f a)) :
    Gives Q (x >>= f) :=
  fun s => hf _ (hx s) _

/-- The second computations go on from what the first ones give. -/
theorem Paired.bind {x y : StateM (Session σ) α} {f g : α → StateM (Session σ) β} {P : α → Prop}
    (hx : Paired R x y) (hgives : Gives P x) (hf : ∀ a, P a → Paired R (f a) (g a)) :
    Paired R (x >>= f) (y >>= g) := by
  intro s t hst
  obtain ⟨hout, hst'⟩ := hx s t hst
  show (f (x s).1 (x s).2).1 = (g (y t).1 (y t).2).1 ∧ R (f (x s).1 (x s).2).2 (g (y t).1 (y t).2).2
  rw [← hout]
  exact hf _ (hgives s) _ _ hst'

theorem Paired.bind_any {x y : StateM (Session σ) α} {f g : α → StateM (Session σ) β}
    (hx : Paired R x y) (hf : ∀ a, Paired R (f a) (g a)) : Paired R (x >>= f) (y >>= g) :=
  hx.bind (gives_any x) fun a _ => hf a

/-- A session beside itself, with a property. -/
def Beside (Q : Session σ → Prop) (s t : Session σ) : Prop := s = t ∧ Q s

theorem paired_beside {Q : Session σ → Prop} {x : StateM (Session σ) α}
    (h : ∀ s, Q s → Q (x s).2) : Paired (Beside Q) x x := by
  rintro s t ⟨rfl, hs⟩
  exact ⟨rfl, rfl, h s hs⟩

end Session

namespace Git

/-- Two endings for the repository `r` are alike: the same outcome and the same remembered branch, in
related sessions. A fault is one of `r`. -/
structure Alike (r : Repository) (R : Session σ → Session σ → Prop)
    (p q : Except GitFault α × Desk σ) : Prop where
  outcome : p.1 = q.1
  current : p.2.current = q.2.current
  session : R p.2.session q.2.session
  blame : ∀ f, p.1 = .error f → f.address = r.address

/-- Run at desks that remember the same branch, in related sessions, two operations end alike. -/
def Paired (r : Repository) (R : Session σ → Session σ → Prop) (x y : Git σ α) : Prop :=
  ∀ d e, d.current = e.current → R d.session e.session → Alike r R (x.finish d) (y.finish e)

variable {r : Repository} {x y : Git σ α}

theorem paired_pure (a : α) : Paired r R (pure a) (pure a) :=
  fun _ _ hcurrent hsession => ⟨rfl, hcurrent, hsession, nofun⟩

theorem paired_throw {f : GitFault} (h : f.address = r.address) :
    Paired r R (throw f : Git σ α) (throw f) := by
  intro d e hcurrent hsession
  refine ⟨rfl, hcurrent, hsession, ?_⟩
  rintro _ ⟨⟩
  exact h

theorem paired_throw_bind {f : GitFault} {k k' : β → Git σ α} (h : f.address = r.address) :
    Paired r R (throw f >>= k) (throw f >>= k') := by
  intro d e hcurrent hsession
  refine ⟨rfl, hcurrent, hsession, ?_⟩
  rintro _ ⟨⟩
  exact h

/-- The second operations are run at the desks that the first ones leave. -/
theorem Paired.bind {f g : α → Git σ β} (hx : Paired r R x y) (hf : ∀ a, Paired r R (f a) (g a)) :
    Paired r R (x >>= f) (y >>= g) := by
  intro d e hcurrent hsession
  have hend := hx d e hcurrent hsession
  rw [finish_bind, finish_bind]
  rcases hxd : x.finish d with ⟨out, d'⟩
  rcases hye : y.finish e with ⟨out', e'⟩
  rw [hxd, hye] at hend
  obtain ⟨hout, hcurrent', hsession', hblame⟩ := hend
  dsimp only at hout
  subst hout
  cases out with
  | ok a => exact hf a d' e' hcurrent' hsession'
  | error fault => exact ⟨rfl, hcurrent', hsession', fun f hf => hblame f (by cases hf; rfl)⟩

theorem paired_get_bind {f g : Desk σ → Git σ α}
    (h : ∀ d e, d.current = e.current → R d.session e.session →
      Alike r R ((f d).finish d) ((g e).finish e)) :
    Paired r R (get >>= f) (get >>= g) := by
  intro d e hcurrent hsession
  rw [finish_bind, finish_bind]
  exact h d e hcurrent hsession

theorem paired_remember (branch : Option Branch) :
    Paired r R (remember branch : Git σ Unit) (remember branch) :=
  fun _ _ _ hsession => ⟨rfl, rfl, hsession, nofun⟩

theorem paired_lift {x y : StateM (Session σ) α} (h : Session.Paired R x y) :
    Paired r R (lift x) (lift y) := by
  intro d e hcurrent hsession
  obtain ⟨hout, hsession'⟩ := h d.session e.session hsession
  refine ⟨?_, hcurrent, hsession', nofun⟩
  show Except.ok (x d.session).1 = Except.ok (y e.session).1
  rw [hout]

theorem Paired.mapFault {g : GitFault → GitFault} (h : Paired r R x y)
    (hg : ∀ f, (g f).address = r.address) : Paired r R (x.mapFault g) (y.mapFault g) := by
  intro d e hcurrent hsession
  obtain ⟨hout, hcurrent', hsession', -⟩ := h d e hcurrent hsession
  rw [finish_mapFault, finish_mapFault]
  refine ⟨by rw [hout], hcurrent', hsession', ?_⟩
  intro f hf
  dsimp only at hf
  cases hx : (x.finish d).1 with
  | ok a =>
      rw [hx] at hf
      cases hf
  | error fault =>
      rw [hx] at hf
      cases hf
      exact hg fault

theorem Paired.attempt (h : Paired r R x y) : Paired r R x.attempt y.attempt := by
  intro d e hcurrent hsession
  obtain ⟨hout, hcurrent', hsession', -⟩ := h d e hcurrent hsession
  rw [finish_attempt, finish_attempt]
  exact ⟨by rw [hout], hcurrent', hsession', nofun⟩

end Git

namespace Repository

variable {r : Repository} {w w' : World σ} {asks : List String → Prop}

/-- Whether a git command neither makes a working copy nor gives anything away. -/
def isRoutine (args : List String) : Bool :=
  args.head? != some "clone" && args.head? != some "commit" && args.head? != some "push"

theorem isRoutine_moveArgs (name : String) (existing : Bool) :
    isRoutine (moveArgs name existing) = true := by
  cases existing <;> rfl

/-- What a repository asks and tells while it is worked on is the same in two worlds, and leaves
related sessions related. `asks` are the git commands that are run in it. -/
structure Served (r : Repository) (w w' : World σ) (R : Session σ → Session σ → Prop)
    (asks : List String → Prop) : Prop where
  routine : ∀ args, isRoutine args = true → asks args
  git : ∀ args, asks args → Session.Paired R (w.call { cwd := r.path, program := "git", args })
    (w'.call { cwd := r.path, program := "git", args })
  defaultBranch : Session.Paired R (Hosting.defaultBranch w r.address r.path)
    (Hosting.defaultBranch w' r.address r.path)
  tell : ∀ event : Event, event.skipped? = none →
    Session.Paired R (Session.tell event) (Session.tell event)

/-! ## Single commands -/

theorem gitOutput_paired (h : r.Served w w' R asks) {args : List String} (hargs : asks args) :
    Git.Paired r R (r.gitOutput w args) (r.gitOutput w' args) := by
  refine (Git.paired_lift (h.git args hargs)).bind fun reply => ?_
  cases reply with
  | ok output => exact Git.paired_pure output
  | error cause => exact Git.paired_throw rfl

theorem git_paired (h : r.Served w w' R asks) {args : List String} (hargs : asks args) :
    Git.Paired r R (r.git w args) (r.git w' args) := by
  refine (gitOutput_paired h hargs).bind fun output => ?_
  split
  · exact Git.paired_pure output
  · exact Git.paired_throw rfl

/-- Most commands are routine, and what they print is read. -/
theorem git_read_paired (h : r.Served w w' R asks) {args : List String}
    (hargs : isRoutine args = true) (read : Output → α) :
    Git.Paired r R (do let o ← r.git w args; return read o) (do let o ← r.git w' args; return read o) :=
  (git_paired h (h.routine args hargs)).bind fun output => Git.paired_pure (read output)

theorem branches_paired (h : r.Served w w' R asks) :
    Git.Paired r R (r.branches w) (r.branches w') :=
  git_read_paired h rfl _

theorem remoteBranches_paired (h : r.Served w w' R asks) :
    Git.Paired r R (r.remoteBranches w) (r.remoteBranches w') :=
  git_read_paired h rfl _

theorem remoteName_paired (h : r.Served w w' R asks) :
    Git.Paired r R (r.remoteName w) (r.remoteName w') :=
  git_read_paired h rfl _

theorem tell_paired (h : r.Served w w' R asks) {event : Event} (hevent : event.skipped? = none) :
    Git.Paired r R (Git.tell event : Git σ Unit) (Git.tell event) :=
  Git.paired_lift (h.tell event hevent)

theorem selectedBranch_paired (h : r.Served w w' R asks) :
    Git.Paired r R (r.selectedBranch w) (r.selectedBranch w') := by
  refine Git.paired_get_bind fun d e hcurrent hsession => ?_
  rw [hcurrent]
  cases he : e.current with
  | some branch => exact Git.paired_pure _ d e hcurrent hsession
  | none =>
      have hlook := (branches_paired h).bind fun listed =>
        (Git.paired_remember (r := r) (R := R) (listed.find? (·.selected))).bind fun _ =>
          Git.paired_pure (listed.find? (·.selected))
      exact hlook d e hcurrent hsession

theorem mainBranchName_paired (h : r.Served w w' R asks) :
    Git.Paired r R (r.mainBranchName w) (r.mainBranchName w') := by
  refine (Git.paired_lift h.defaultBranch).bind fun answer => ?_
  cases answer with
  | ok name => exact Git.paired_pure name
  | error cause => exact Git.paired_throw rfl

/-! ## Preparing -/

theorem moveTo_paired (h : r.Served w w' R asks) (name : String) (fresh : Bool) :
    Git.Paired r R (r.moveTo w name fresh) (r.moveTo w' name fresh) := by
  refine ((branches_paired h).mapFault fun _ => rfl).bind fun listed => ?_
  refine (git_paired h (h.routine _ (isRoutine_moveArgs _ _))).attempt.bind fun moved => ?_
  cases moved with
  | ok _ => exact (Git.paired_remember _).bind fun _ => Git.paired_pure _
  | error cause => exact (Git.paired_remember _).bind fun _ => Git.paired_throw rfl

theorem checkout_paired (h : r.Served w w' R asks) (name : String) (fresh : Bool) :
    Git.Paired r R (r.checkout w name fresh) (r.checkout w' name fresh) := by
  unfold checkout
  split
  · exact moveTo_paired h name fresh
  · refine ((selectedBranch_paired h).mapFault fun _ => rfl).bind fun selected => ?_
    cases selected with
    | none => exact moveTo_paired h name fresh
    | some branch =>
        dsimp only
        split
        · exact Git.paired_pure branch
        · exact moveTo_paired h name fresh

theorem deleteBranch_paired (h : r.Served w w' R asks) (name : String) :
    Git.Paired r R (r.deleteBranch w name) (r.deleteBranch w' name) :=
  (Git.paired_remember none).bind fun _ => git_read_paired h rfl _

theorem resetAndFetch_paired (h : r.Served w w' R asks) :
    Git.Paired r R (r.resetAndFetch w) (r.resetAndFetch w') := by
  refine (git_paired h (h.routine _ rfl)).bind fun _ => ?_
  refine (git_paired h (h.routine _ rfl)).bind fun _ => ?_
  exact git_read_paired h rfl _

theorem tryRebase_paired (h : r.Served w w' R asks) (base : String) :
    Git.Paired r R (r.tryRebase w base) (r.tryRebase w' base) := by
  refine (gitOutput_paired h (h.routine _ rfl)).bind fun output => ?_
  split
  · exact Git.paired_pure true
  · refine (tell_paired h rfl).bind fun _ => ?_
    exact (gitOutput_paired h (h.routine _ rfl)).attempt.bind fun _ => Git.paired_pure false

theorem recreate_paired (h : r.Served w w' R asks) (working main base : String) :
    Git.Paired r R (r.recreate w working main base) (r.recreate w' working main base) := by
  unfold recreate
  split
  · exact Git.paired_throw_bind rfl
  · refine ((git_paired h (h.routine _ rfl)).mapFault fun _ => rfl).bind fun _ => ?_
    refine (deleteBranch_paired h working).attempt.bind fun _ => ?_
    refine ((git_paired h (h.routine _ rfl)).mapFault fun _ => rfl).bind fun _ => ?_
    refine (Git.paired_remember none).bind fun _ => ?_
    refine (selectedBranch_paired h).bind fun selected => ?_
    cases selected with
    | none => exact Git.paired_throw rfl
    | some current =>
        dsimp only
        split
        · exact Git.paired_throw rfl
        · exact Git.paired_pure _

theorem survey_paired (h : r.Served w w' R asks) (working : String) :
    Git.Paired r R (r.survey w working) (r.survey w' working) := by
  refine ((mainBranchName_paired h).mapFault fun _ => rfl).bind fun main => ?_
  refine ((remoteName_paired h).mapFault fun _ => rfl).bind fun remote => ?_
  cases remote with
  | none => exact Git.paired_throw rfl
  | some remote => exact (remoteBranches_paired h).bind fun _ => Git.paired_pure _

theorem update_paired (h : r.Served w w' R asks) (working : String) :
    Git.Paired r R (r.update w working) (r.update w' working) := by
  refine (survey_paired h working).bind fun known => ?_
  refine (checkout_paired h working false).bind fun _ => ?_
  refine (tryRebase_paired h known.base).bind fun rebased => ?_
  split
  · exact Git.paired_pure ()
  · exact (tell_paired h rfl).bind fun _ => recreate_paired h working known.main known.base

theorem prepare_paired (h : r.Served w w' R asks) (working : String) :
    Git.Paired r R (r.prepare w working) (r.prepare w' working) := by
  refine (checkout_paired h working false).bind fun _ => ?_
  exact (resetAndFetch_paired h).bind fun _ => update_paired h working

/-! ## Cloning, committing and pushing -/

/-- Whether a repository is there, making room for it and cloning it are the same in two worlds, and
leave related sessions related. -/
structure Housed (r : Repository) (w w' : World σ) (R : Session σ → Session σ → Prop) : Prop where
  present : ∀ s t, R s t → s.disk.exists? r.path = t.disk.exists? r.path
  room : Session.Paired R (Session.makeDirs r.home) (Session.makeDirs r.home)
  clone : Session.Paired R (w.call r.cloneCommand) (w'.call r.cloneCommand)
  tell : Session.Paired R (Session.tell (.alreadyCloned r.address))
    (Session.tell (.alreadyCloned r.address))

theorem clone_paired (h : r.Housed w w' R) : Git.Paired r R (r.clone w) (r.clone w') := by
  refine Git.paired_get_bind fun d e hcurrent hsession => ?_
  rw [h.present _ _ hsession]
  split
  · exact Git.paired_lift h.tell d e hcurrent hsession
  · refine (Git.paired_lift h.room).bind (fun made => ?_) d e hcurrent hsession
    cases made with
    | error cause => exact Git.paired_throw rfl
    | ok _ =>
        refine (Git.paired_lift h.clone).bind fun reply => ?_
        cases reply with
        | error cause => exact Git.paired_throw rfl
        | ok output =>
            dsimp only
            split
            · exact Git.paired_pure ()
            · exact Git.paired_throw rfl

theorem commit_paired (h : r.Served w w' R asks) (message : String)
    (hcommit : asks ["commit", "-m", message, "--no-verify"]) :
    Git.Paired r R (r.commit w message) (r.commit w' message) := by
  refine ((git_paired h (h.routine _ rfl)).mapFault fun _ => rfl).bind fun _ => ?_
  refine ((gitOutput_paired h hcommit).mapFault fun _ => rfl).bind fun output => ?_
  split
  · exact Git.paired_pure ()
  · exact Git.paired_throw rfl

theorem push_paired (h : r.Served w w' R asks)
    (hpush : ∀ remote branch,
      asks ["push", "--force", "--no-verify", "--set-upstream", remote, branch]) :
    Git.Paired r R (r.push w) (r.push w') := by
  refine ((remoteName_paired h).mapFault fun _ => rfl).bind fun remote => ?_
  refine ((selectedBranch_paired h).mapFault fun _ => rfl).bind fun current => ?_
  match remote, current with
  | none, _ => exact Git.paired_throw rfl
  | some _, none => exact Git.paired_throw rfl
  | some remote, some current =>
      refine (mainBranchName_paired h).bind fun main => ?_
      dsimp only
      split
      · exact Git.paired_throw_bind rfl
      · refine ((git_paired h (h.routine _ rfl)).mapFault fun _ => rfl).bind fun _ => ?_
        refine ((git_paired h (hpush _ _)).mapFault fun _ => rfl).bind fun _ => ?_
        exact Git.paired_pure ()

end Repository

end CodeSweep
