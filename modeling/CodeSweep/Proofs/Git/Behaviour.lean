import CodeSweep.Proofs.Git.Run

/-! # The behaviours of a repository's operations

For every operation there is one inductive behaviour that lists all it can do: which commands it runs
in which order, where it may break off, what it remembers. Each is followed by the lemma that the
operation stays inside it (`checkout_sends`, `update_sends`, ..). Whatever the world answers, a run of
the operation is one of the listed cases, so statements about all runs are case analyses.

Faults are left open except for broken invariants: which fault an operation ends with never decides
what it did before. -/

namespace CodeSweep

variable {σ α β : Type}

/-- Whether a command was started and succeeded. -/
def Reply.succeeded : Reply → Bool
  | .ok o => o.success
  | .error _ => false

@[simp] theorem Reply.succeeded_ok (o : Output) : Reply.succeeded (.ok o) = o.success := rfl

@[simp] theorem Reply.succeeded_error (cause : IoFault) :
    Reply.succeeded (.error cause) = false := rfl

/-- The branch that a listing of local branches marks. -/
def Branch.markedIn (stdout : String) : Option Branch := (readLocal stdout).find? (·.selected)

namespace Repository

variable {w : World σ} {r : Repository} {c : Option Branch}

/-- A git command run in the directory of the repository, with its reply. -/
def ran (r : Repository) (args : List String) (reply : Reply) : Exchange :=
  .command { cwd := r.path, program := "git", args } reply

@[simp] theorem ran_inj {args args' : List String} {reply reply' : Reply} :
    r.ran args reply = r.ran args' reply' ↔ args = args' ∧ reply = reply' := by
  simp [ran]

/-! ## Single commands -/

/-- One git command, which fails only when it cannot be started. -/
inductive Replies (r : Repository) (args : List String) (c : Option Branch) : Behaviour Output
  | started {o} : Replies r args c [r.ran args (.ok o)] (.ok o) c
  | unstarted {cause f} : Replies r args c [r.ran args (.error cause)] (.error f) c

theorem gitOutput_sends (args : List String) :
    (r.gitOutput w args).Sends w c (r.Replies args c) := by
  unfold gitOutput
  refine Git.sends_call_bind fun reply => ?_
  cases reply with
  | ok o => exact Git.sends_pure .started
  | error cause => exact Git.sends_throw .unstarted

theorem Replies.mapFault {args : List String} {g : GitFault → GitFault} :
    ((r.gitOutput w args).mapFault g).Sends w c (r.Replies args c) := by
  refine .mapFault ((gitOutput_sends args).mono fun t out c' hr => ?_)
  cases hr with
  | started => exact .started
  | unstarted => exact .unstarted

/-- One git command, which has to succeed; its output is read by `read`. -/
inductive Reads (r : Repository) (args : List String) (read : Output → α) (c : Option Branch) :
    Behaviour α
  | done {o a} (h : o.success = true) (ha : read o = a) :
      Reads r args read c [r.ran args (.ok o)] (.ok a) c
  | failed {reply f} (h : Reply.succeeded reply = false) :
      Reads r args read c [r.ran args reply] (.error f) c

theorem git_sends (args : List String) : (r.git w args).Sends w c (r.Reads args id c) := by
  unfold git
  refine (gitOutput_sends args).bind ?_ ?_
  · rintro t o c' ⟨⟩
    cases ho : o.success with
    | true => exact Git.sends_pure (.done ho rfl)
    | false => exact Git.sends_throw (.failed ho)
  · rintro t e c' ⟨⟩
    exact .failed rfl

/-- What a command printed may be read further. -/
theorem Reads.map {args : List String} {read : Output → α} {x : Git σ α} (f : α → β)
    (hx : x.Sends w c (r.Reads args read c)) :
    (x >>= fun a => pure (f a)).Sends w c (r.Reads args (fun o => f (read o)) c) := by
  refine hx.bind ?_ ?_
  · rintro t a c' (⟨h, rfl⟩)
    exact Git.sends_pure (.done h rfl)
  · rintro t e c' (⟨⟩ | ⟨h⟩)
    exact .failed h

theorem git_read_sends (args : List String) (read : Output → α) :
    (do let o ← r.git w args; return read o : Git σ α).Sends w c (r.Reads args read c) :=
  Reads.map read (git_sends args)

/-- Only the fault of a failed command changes when it is seen differently. -/
theorem Reads.mapFault {args : List String} {read : Output → α} {g : GitFault → GitFault}
    {x : Git σ α} (h : x.Sends w c (r.Reads args read c)) :
    (x.mapFault g).Sends w c (r.Reads args read c) := by
  refine .mapFault (h.mono fun t out c' hr => ?_)
  cases hr with
  | done h ha => exact .done h ha
  | failed h => exact .failed h

theorem branches_sends :
    (r.branches w).Sends w c (r.Reads ["branch"] (fun o => Branch.readLocal o.stdout) c) :=
  git_read_sends _ _

theorem remoteBranches_sends :
    (r.remoteBranches w).Sends w c
      (r.Reads ["ls-remote", "--heads"] (fun o => Branch.readRemote o.stdout) c) :=
  git_read_sends _ _

theorem remoteName_sends :
    (r.remoteName w).Sends w c (r.Reads ["remote"] (fun o => firstRemote? o.stdout) c) :=
  git_read_sends _ _

/-! ## The branch that is checked out -/

/-- Looking for the branch that is checked out: the remembered one, or the one marked in a listing. -/
inductive Selects (r : Repository) : Option Branch → Behaviour (Option Branch)
  | known {b} : Selects r (some b) [] (.ok (some b)) (some b)
  | listed {o b?} (h : o.success = true) (hb : Branch.markedIn o.stdout = b?) :
      Selects r none [r.ran ["branch"] (.ok o)] (.ok b?) b?
  | failed {reply f} (h : Reply.succeeded reply = false) :
      Selects r none [r.ran ["branch"] reply] (.error f) none

theorem selectedBranch_sends : (r.selectedBranch w).Sends w c (r.Selects c) := by
  unfold selectedBranch
  refine Git.sends_get_bind fun d hd => ?_
  rw [hd]
  cases c with
  | some b => exact Git.sends_pure .known
  | none =>
    refine branches_sends.bind ?_ ?_
    · rintro t bs c' (⟨h, rfl⟩)
      exact Git.sends_remember_bind (Git.sends_pure (.listed h rfl))
    · rintro t e c' ⟨⟩
      exact .failed ‹_›

theorem Selects.mapFault {g : GitFault → GitFault} :
    ((r.selectedBranch w).mapFault g).Sends w c (r.Selects c) := by
  refine .mapFault (selectedBranch_sends.mono fun t out c' hs => ?_)
  cases hs with
  | known => exact .known
  | listed h hb => exact .listed h hb
  | failed h => exact .failed h

/-! ## Checking out -/

/-- Moving to a branch that is not known to be checked out. -/
inductive MovesTo (r : Repository) (name : String) (fresh : Bool) (c : Option Branch) :
    Behaviour Branch
  | unlisted {reply f} (h : Reply.succeeded reply = false) :
      MovesTo r name fresh c [r.ran ["branch"] reply] (.error f) c
  | moved {o o'} (h : o.success = true) (h' : o'.success = true) :
      MovesTo r name fresh c
        [r.ran ["branch"] (.ok o),
          r.ran (moveArgs name ((Branch.readLocal o.stdout).any (·.name == name) && !fresh)) (.ok o')]
        (.ok { name, selected := true }) (some { name, selected := true })
  | stuck {o reply f} (h : o.success = true) (h' : Reply.succeeded reply = false) :
      MovesTo r name fresh c
        [r.ran ["branch"] (.ok o),
          r.ran (moveArgs name ((Branch.readLocal o.stdout).any (·.name == name) && !fresh)) reply]
        (.error f) none

theorem moveTo_sends (name : String) (fresh : Bool) :
    (r.moveTo w name fresh).Sends w c (r.MovesTo name fresh c) := by
  unfold moveTo
  refine (Reads.mapFault branches_sends).bind ?_ ?_
  · rintro t bs c' (⟨h, rfl⟩)
    refine (git_sends _).attempt_bind ?_
    rintro t out c' (⟨h', -⟩ | h')
    · exact Git.sends_remember_bind (Git.sends_pure (.moved h h'))
    · exact Git.sends_remember_bind (Git.sends_throw (.stuck h h'))
  · rintro t e c' ⟨⟩
    exact .unlisted ‹_›

/-- Checking out a branch. -/
inductive ChecksOut (r : Repository) (name : String) : Bool → Option Branch → Behaviour Branch
  | fresh {c t out c'} (move : r.MovesTo name true c t out c') :
      ChecksOut r name true c t out c'
  | unknown {c t c' f f'} (look : r.Selects c t (.error f) c') :
      ChecksOut r name false c t (.error f') c'
  | already {c t b c'} (look : r.Selects c t (.ok (some b)) c') (hb : b.name = name) :
      ChecksOut r name false c t (.ok b) c'
  | moved {c t current c' t' out c''} (look : r.Selects c t (.ok current) c')
      (hb : ∀ b ∈ current, b.name ≠ name) (move : r.MovesTo name false c' t' out c'') :
      ChecksOut r name false c (t ++ t') out c''

theorem checkout_sends (name : String) (fresh : Bool) :
    (r.checkout w name fresh).Sends w c (r.ChecksOut name fresh c) := by
  unfold checkout
  cases fresh with
  | true => exact (moveTo_sends name true).mono fun t out c' => .fresh
  | false =>
    refine Selects.mapFault.bind ?_ ?_
    · intro t current c' look
      cases current with
      | none => exact (moveTo_sends name false).mono fun t' out c'' => .moved look (by simp)
      | some b =>
        by_cases hb : b.name = name
        · simp only [hb, if_true]
          exact Git.sends_pure (by rw [List.append_nil]; exact .already look hb)
        · simp only [hb, if_false]
          exact (moveTo_sends name false).mono fun t' out c'' => .moved look (by simp [hb])
    · intro t e c' look
      exact .unknown look

/-! ## Cleaning up -/

/-- Deleting a branch. The branch that is checked out is no longer remembered. -/
theorem deleteBranch_sends (name : String) :
    (r.deleteBranch w name).Sends w c (r.Reads ["branch", "-D", name] (fun _ => ()) none) := by
  unfold deleteBranch
  exact Git.sends_remember_bind (git_read_sends _ _)

/-- Throwing local changes away and fetching: three commands, until one fails. -/
inductive Resets (r : Repository) (c : Option Branch) : Behaviour Unit
  | unstaged {reply f} (h : Reply.succeeded reply = false) :
      Resets r c [r.ran ["add", "."] reply] (.error f) c
  | kept {o reply f} (h : o.success = true) (h' : Reply.succeeded reply = false) :
      Resets r c [r.ran ["add", "."] (.ok o), r.ran ["reset", "--hard"] reply] (.error f) c
  | unfetched {o o' reply f} (h : o.success = true) (h' : o'.success = true)
      (h'' : Reply.succeeded reply = false) :
      Resets r c [r.ran ["add", "."] (.ok o), r.ran ["reset", "--hard"] (.ok o'),
        r.ran ["fetch"] reply] (.error f) c
  | fetched {o o' o''} (h : o.success = true) (h' : o'.success = true) (h'' : o''.success = true) :
      Resets r c [r.ran ["add", "."] (.ok o), r.ran ["reset", "--hard"] (.ok o'),
        r.ran ["fetch"] (.ok o'')] (.ok ()) c

theorem resetAndFetch_sends : (r.resetAndFetch w).Sends w c (r.Resets c) := by
  unfold resetAndFetch
  refine (git_sends _).bind ?_ ?_
  · rintro t o c' (⟨h, rfl⟩)
    refine (git_sends _).bind ?_ ?_
    · rintro t o' c' (⟨h', rfl⟩)
      refine (git_sends _).bind ?_ ?_
      · rintro t o'' c' (⟨h'', rfl⟩)
        exact Git.sends_pure (.fetched h h' h'')
      · rintro t e c' ⟨⟩
        exact .unfetched h h' ‹_›
    · rintro t e c' ⟨⟩
      exact .kept h ‹_›
  · rintro t e c' ⟨⟩
    exact .unstaged ‹_›

/-! ## Rebasing and making anew -/

/-- A rebase, which is given up when it fails. -/
inductive Rebases (r : Repository) (base : String) (c : Option Branch) : Behaviour Bool
  | unstarted {cause f} : Rebases r base c [r.ran ["rebase", base] (.error cause)] (.error f) c
  | clean {o} (h : o.success = true) :
      Rebases r base c [r.ran ["rebase", base] (.ok o)] (.ok true) c
  | aborted {o reply} (h : o.success = false) :
      Rebases r base c [r.ran ["rebase", base] (.ok o), r.ran ["rebase", "--abort"] reply]
        (.ok false) c

theorem tryRebase_sends (base : String) :
    (r.tryRebase w base).Sends w c (r.Rebases base c) := by
  unfold tryRebase
  refine (gitOutput_sends _).bind ?_ ?_
  · rintro t o c' ⟨⟩
    cases ho : o.success with
    | true => exact Git.sends_pure (.clean ho)
    | false =>
      refine Git.sends_tell_bind ((gitOutput_sends _).attempt_bind ?_)
      rintro t out c' (_ | _)
      · exact Git.sends_pure (.aborted ho)
      · exact Git.sends_pure (.aborted ho)
  · rintro t e c' ⟨⟩
    exact .unstarted

/-- How making a branch anew ends, by where the working copy was found afterwards. -/
def verdict (r : Repository) (main : String) :
    Except GitFault (Option Branch) → Except GitFault Unit
  | .error f => .error f
  | .ok none => .error (r.fault (.invariant "failed to find current branch"))
  | .ok (some b) => if b.name = main then .error (r.fault (.invariant onMainBranch)) else .ok ()

/-- Making the working branch anew from `base`. The deletion may fail. -/
inductive Recreates (r : Repository) (working main base : String) (c : Option Branch) :
    Behaviour Unit
  | refused (h : working = main) :
      Recreates r working main base c [] (.error (r.fault (.invariant onMainBranch))) c
  | attached {reply f} (hne : working ≠ main) (h : Reply.succeeded reply = false) :
      Recreates r working main base c [r.ran ["checkout", "--detach", base] reply] (.error f) c
  | lost {o deleted reply f} (hne : working ≠ main) (h : o.success = true)
      (h' : Reply.succeeded reply = false) :
      Recreates r working main base c
        [r.ran ["checkout", "--detach", base] (.ok o), r.ran ["branch", "-D", working] deleted,
          r.ran ["checkout", "-b", working, base] reply] (.error f) none
  | created {o deleted o' t found out c'} (hne : working ≠ main) (h : o.success = true)
      (h' : o'.success = true) (look : r.Selects none t found c') (hout : r.verdict main found = out) :
      Recreates r working main base c
        ([r.ran ["checkout", "--detach", base] (.ok o), r.ran ["branch", "-D", working] deleted,
          r.ran ["checkout", "-b", working, base] (.ok o')] ++ t) out c'

theorem recreate_sends (working main base : String) :
    (r.recreate w working main base).Sends w c (r.Recreates working main base c) := by
  unfold recreate
  by_cases hne : working = main
  · simp only [hne, if_true]
    exact Git.sends_throw_bind (.refused rfl)
  simp only [hne, if_false]
  refine (Reads.mapFault (git_sends _)).bind ?_ ?_
  · rintro t o c' (⟨h, rfl⟩)
    refine (deleteBranch_sends working).attempt_bind ?_
    intro t out c' deleted
    -- whether or not the deletion failed, one command was run and nothing is remembered
    obtain ⟨reply, rfl, rfl⟩ : ∃ reply, t = [r.ran ["branch", "-D", working] reply] ∧ c' = none := by
      cases deleted <;> exact ⟨_, rfl, rfl⟩
    refine (Reads.mapFault (git_sends _)).bind ?_ ?_
    · rintro t o' c' (⟨h', rfl⟩)
      refine Git.sends_remember_bind (selectedBranch_sends.bind ?_ ?_)
      · intro t current c' look
        cases current with
        | none => exact Git.sends_throw (by rw [List.append_nil]; exact .created hne h h' look rfl)
        | some b =>
          by_cases hb : b.name = main
          · simp only [hb, if_true]
            refine Git.sends_throw ?_
            rw [List.append_nil]
            exact .created hne h h' look (by simp [verdict, hb])
          · simp only [hb, if_false]
            refine Git.sends_pure ?_
            rw [List.append_nil]
            exact .created hne h h' look (by simp [verdict, hb])
      · intro t e c' look
        exact .created hne h h' look rfl
    · rintro t e c' ⟨⟩
      exact .lost hne h ‹_›
  · rintro t e c' ⟨⟩
    exact .attached hne ‹_›

/-! ## The default branch -/

theorem defaultBranch_of_gh {w : World σ} (hw : w.hosting = .gh) (s : Session σ) :
    Hosting.defaultBranch w r.address r.path s =
      let called := w.call { cwd := r.path, program := "gh", args := Hosting.viewArgs } s
      let answer := Hosting.branchFrom (Hosting.printed Hosting.viewArgs called.1)
      (answer, { called.2 with
        transcript := called.2.transcript ++ [.defaultBranch r.address answer] }) := by
  unfold Hosting.defaultBranch
  rw [hw]
  rfl

theorem defaultBranch_of_service {w : World σ} {ask : String → σ → Except Fault String × σ}
    {request : String → PullRequest → σ → Except Fault String × σ}
    (hw : w.hosting = .service ask request) (s : Session σ) :
    Hosting.defaultBranch w r.address r.path s =
      let (answer, outside) := ask r.address s.outside
      (answer, { s with
        outside, transcript := s.transcript ++ [.defaultBranch r.address answer] }) := by
  unfold Hosting.defaultBranch
  rw [hw]
  rfl

/-- What goes before an answer of the hosting platform: nothing, or one run of `gh`. -/
inductive AsksGh (r : Repository) : List Exchange → Prop
  | service : AsksGh r []
  | gh {reply} :
      AsksGh r [.command { cwd := r.path, program := "gh", args := Hosting.viewArgs } reply]

theorem defaultBranch_leads (w : World σ) (r : Repository) (s : Session σ) :
    ∃ t, s.Leads w t (Hosting.defaultBranch w r.address r.path s).2 ∧
      ∃ pre, r.AsksGh pre ∧
        t = pre ++ [.defaultBranch r.address (Hosting.defaultBranch w r.address r.path s).1] := by
  cases hw : w.hosting with
  | gh =>
    rw [defaultBranch_of_gh hw]
    -- the answer is read off the reply, and noting it moves nothing outside
    refine ⟨_, (Session.Leads.call _).trans ⟨rfl, .single ?_⟩, _, .gh, rfl⟩
    simp [World.Moves, hw]
  | service ask request =>
    rw [defaultBranch_of_service hw]
    refine ⟨_, ⟨rfl, .single ?_⟩, [], .service, rfl⟩
    simp [World.Moves, hw]

/-- Asking the hosting platform for the default branch. -/
inductive Asks (r : Repository) (c : Option Branch) : Behaviour String
  | answered {pre main} (hpre : r.AsksGh pre) :
      Asks r c (pre ++ [.defaultBranch r.address (.ok main)]) (.ok main) c
  | refused {pre cause f} (hpre : r.AsksGh pre) :
      Asks r c (pre ++ [.defaultBranch r.address (.error cause)]) (.error f) c

theorem mainBranchName_sends : (r.mainBranchName w).Sends w c (r.Asks c) := by
  unfold mainBranchName
  refine Git.sends_lift_bind (R := fun t answer =>
    ∃ pre, r.AsksGh pre ∧ t = pre ++ [.defaultBranch r.address answer]) (defaultBranch_leads w r) ?_
  rintro t answer ⟨pre, hpre, rfl⟩
  cases answer with
  | ok main => exact Git.sends_pure (by rw [List.append_nil]; exact .answered hpre)
  | error cause => exact Git.sends_throw (by rw [List.append_nil]; exact .refused hpre)

theorem Asks.mapFault {g : GitFault → GitFault} :
    ((r.mainBranchName w).mapFault g).Sends w c (r.Asks c) := by
  refine .mapFault (mainBranchName_sends.mono fun t out c' ha => ?_)
  cases ha with
  | answered hpre => exact .answered hpre
  | refused hpre => exact .refused hpre

/-! ## Bringing a branch up to date -/

/-- Finding out the default branch, the remote, and whether the branch was pushed: three questions,
until one has no answer. -/
inductive Surveys (r : Repository) (working : String) (c : Option Branch) : Behaviour Survey
  | unanswered {t f f'} (ask : r.Asks c t (.error f) c) : Surveys r working c t (.error f') c
  | unfound {t main reply f} (ask : r.Asks c t (.ok main) c)
      (h : ∀ o, reply = .ok o → o.success = true → firstRemote? o.stdout = none) :
      Surveys r working c (t ++ [r.ran ["remote"] reply]) (.error f) c
  | unlisted {t main o remote reply f} (ask : r.Asks c t (.ok main) c) (h : o.success = true)
      (hr : firstRemote? o.stdout = some remote) (h' : Reply.succeeded reply = false) :
      Surveys r working c
        (t ++ [r.ran ["remote"] (.ok o), r.ran ["ls-remote", "--heads"] reply]) (.error f) c
  | known {t main o remote o' pushed} (ask : r.Asks c t (.ok main) c) (h : o.success = true)
      (hr : firstRemote? o.stdout = some remote) (h' : o'.success = true)
      (hp : (Branch.readRemote o'.stdout).any (·.name == working) = pushed) :
      Surveys r working c
        (t ++ [r.ran ["remote"] (.ok o), r.ran ["ls-remote", "--heads"] (.ok o')])
        (.ok { main, remote, pushed }) c

theorem survey_sends (working : String) : (r.survey w working).Sends w c (r.Surveys working c) := by
  unfold survey
  refine Asks.mapFault.bind ?_ ?_
  · intro t main c' ask
    obtain rfl : c' = c := by cases ask; rfl
    refine (Reads.mapFault remoteName_sends).bind ?_ ?_
    · rintro t remote c'' (⟨h, hr⟩)
      cases remote with
      | none =>
        refine Git.sends_throw ?_
        rw [List.append_nil]
        refine .unfound ask fun o ho _ => ?_
        cases ho
        exact hr
      | some remote =>
        refine remoteBranches_sends.bind ?_ ?_
        · rintro t bs c'' (⟨h', rfl⟩)
          exact Git.sends_pure (.known ask h hr h' rfl)
        · rintro t e c'' ⟨⟩
          exact .unlisted ask h hr ‹_›
    · rintro t e c'' (⟨h⟩ | ⟨h⟩)
      refine .unfound ask fun o ho hs => ?_
      subst ho
      exact absurd hs (by simpa using h)
  · intro t e c' ask
    obtain rfl : c' = c := by cases ask; rfl
    exact .unanswered ask

/-- Bringing the working branch up to date. -/
inductive Updates (r : Repository) (working : String) (c : Option Branch) : Behaviour Unit
  | unknown {t f} (survey : r.Surveys working c t (.error f) c) : Updates r working c t (.error f) c
  | stuck {t₁ known t₂ f c'} (survey : r.Surveys working c t₁ (.ok known) c)
      (move : r.ChecksOut working false c t₂ (.error f) c') :
      Updates r working c (t₁ ++ t₂) (.error f) c'
  | unstarted {t₁ known t₂ b c' t₃ f} (survey : r.Surveys working c t₁ (.ok known) c)
      (move : r.ChecksOut working false c t₂ (.ok b) c')
      (rebase : r.Rebases known.base c' t₃ (.error f) c') :
      Updates r working c (t₁ ++ (t₂ ++ t₃)) (.error f) c'
  | rebased {t₁ known t₂ b c' t₃} (survey : r.Surveys working c t₁ (.ok known) c)
      (move : r.ChecksOut working false c t₂ (.ok b) c')
      (rebase : r.Rebases known.base c' t₃ (.ok true) c') (hp : known.pushed = true) :
      Updates r working c (t₁ ++ (t₂ ++ t₃)) (.ok ()) c'
  | recreated {t₁ known t₂ b c' t₃ rebased t₄ out c''}
      (survey : r.Surveys working c t₁ (.ok known) c)
      (move : r.ChecksOut working false c t₂ (.ok b) c')
      (rebase : r.Rebases known.base c' t₃ (.ok rebased) c')
      (hp : (rebased && known.pushed) = false)
      (anew : r.Recreates working known.main known.base c' t₄ out c'') :
      Updates r working c (t₁ ++ (t₂ ++ (t₃ ++ t₄))) out c''

theorem update_sends (working : String) : (r.update w working).Sends w c (r.Updates working c) := by
  unfold update
  refine (survey_sends working).bind ?_ ?_
  · intro t₁ known c' survey
    obtain rfl : c' = c := by cases survey; rfl
    refine (checkout_sends working false).bind ?_ ?_
    · intro t₂ b c' move
      refine (tryRebase_sends _).bind ?_ ?_
      · intro t₃ rebased c'' rebase
        obtain rfl : c'' = c' := by cases rebase <;> rfl
        cases hp : (rebased && known.pushed) with
        | true =>
          obtain ⟨rfl, hpushed⟩ := Bool.and_eq_true_iff.mp hp
          refine Git.sends_pure ?_
          rw [List.append_nil]
          exact .rebased survey move rebase hpushed
        | false =>
          exact Git.sends_tell_bind
            ((recreate_sends _ _ _).mono fun t₄ out c'' => .recreated survey move rebase hp)
      · intro t₃ f c'' rebase
        obtain rfl : c'' = c' := by cases rebase; rfl
        exact .unstarted survey move rebase
    · intro t₂ f c' move
      exact .stuck survey move
  · intro t f c' survey
    obtain rfl : c' = c := by cases survey <;> rfl
    exact .unknown survey

/-- Cleaning the working copy and bringing the working branch up to date. -/
inductive ResetsTo (r : Repository) (working : String) (c : Option Branch) : Behaviour Unit
  | dirty {t f} (clean : r.Resets c t (.error f) c) : ResetsTo r working c t (.error f) c
  | cleaned {t₁ t₂ out c'} (clean : r.Resets c t₁ (.ok ()) c)
      (update : r.Updates working c t₂ out c') : ResetsTo r working c (t₁ ++ t₂) out c'

theorem reset_sends (working : String) : (r.reset w working).Sends w c (r.ResetsTo working c) := by
  unfold reset
  refine resetAndFetch_sends.bind ?_ ?_
  · intro t₁ a c' clean
    obtain rfl : c' = c := by cases clean; rfl
    exact (update_sends working).mono fun t₂ out c' => .cleaned clean
  · intro t f c' clean
    obtain rfl : c' = c := by cases clean <;> rfl
    exact .dirty clean

/-- All that is done before files are transformed. -/
inductive Prepares (r : Repository) (working : String) (c : Option Branch) : Behaviour Unit
  | stuck {t f c'} (move : r.ChecksOut working false c t (.error f) c') :
      Prepares r working c t (.error f) c'
  | moved {t₁ b c' t₂ out c''} (move : r.ChecksOut working false c t₁ (.ok b) c')
      (reset : r.ResetsTo working c' t₂ out c'') : Prepares r working c (t₁ ++ t₂) out c''

theorem prepare_sends (working : String) :
    (r.prepare w working).Sends w c (r.Prepares working c) := by
  unfold prepare
  refine (checkout_sends working false).bind ?_ ?_
  · intro t₁ b c' move
    exact (reset_sends working).mono fun t₂ out c'' => .moved move
  · intro t f c' move
    exact .stuck move

/-! ## Cloning, committing and pushing -/

/-- Cloning, unless something is there already. The command runs outside the working copy. -/
inductive Clones (r : Repository) (c : Option Branch) : Behaviour Unit
  | present : Clones r c [] (.ok ()) c
  | homeless {f} : Clones r c [] (.error f) c
  | cloned {cwd reply} (h : Reply.succeeded reply = true) :
      Clones r c [.command { cwd, program := "git", args := ["clone", r.address, r.name] } reply]
        (.ok ()) c
  | failed {cwd reply f} (h : Reply.succeeded reply = false) :
      Clones r c [.command { cwd, program := "git", args := ["clone", r.address, r.name] } reply]
        (.error f) c

theorem clone_sends : (r.clone w).Sends w c (r.Clones c) := by
  unfold clone
  refine Git.sends_get_bind fun d hd => ?_
  split
  · exact Git.sends_tell .present
  · refine Git.sends_lift_bind (R := fun t _ => t = []) (fun s => ⟨[], .nothing rfl rfl, rfl⟩) ?_
    rintro t made rfl
    cases made with
    | error cause => exact Git.sends_throw .homeless
    | ok _ =>
      refine Git.sends_call_bind fun reply => ?_
      cases reply with
      | error cause => exact Git.sends_throw (.failed rfl)
      | ok o =>
        by_cases ho : o.success = true
        · simp only [ho, if_true]
          exact Git.sends_pure (.cloned ho)
        · simp only [ho]
          exact Git.sends_throw (.failed (by simpa using ho))

/-- Whether a commit was made, or there was nothing to commit. -/
def commits : Reply → Bool
  | .ok o => o.success || Text.holds o.stdout nothingToCommit || Text.holds o.stderr nothingToCommit
  | .error _ => false

/-- Committing everything. -/
inductive Commits (r : Repository) (message : String) (c : Option Branch) : Behaviour Unit
  | unstaged {reply f} (h : Reply.succeeded reply = false) :
      Commits r message c [r.ran ["add", "."] reply] (.error f) c
  | committed {o reply} (h : o.success = true) (h' : commits reply = true) :
      Commits r message c
        [r.ran ["add", "."] (.ok o), r.ran ["commit", "-m", message, "--no-verify"] reply] (.ok ()) c
  | rejected {o reply f} (h : o.success = true) (h' : commits reply = false) :
      Commits r message c
        [r.ran ["add", "."] (.ok o), r.ran ["commit", "-m", message, "--no-verify"] reply]
        (.error f) c

theorem commit_sends (message : String) :
    (r.commit w message).Sends w c (r.Commits message c) := by
  unfold commit
  refine (Reads.mapFault (git_sends _)).bind ?_ ?_
  · rintro t o c' (⟨h, rfl⟩)
    refine Replies.mapFault.bind ?_ ?_
    · rintro t o' c' ⟨⟩
      split
      next hc => exact Git.sends_pure (.committed h hc)
      next hc => exact Git.sends_throw (.rejected h (by simpa [commits] using hc))
    · rintro t e c' ⟨⟩
      exact .rejected h rfl
  · rintro t e c' (⟨⟩ | ⟨h⟩)
    exact .unstaged h

/-- The command that pushes a branch, over whatever the remote has. -/
def pushArgs (remote branch : String) : List String :=
  ["push", "--force", "--no-verify", "--set-upstream", remote, branch]

/-- Pushing the branch that is checked out. -/
inductive Pushes (r : Repository) (c : Option Branch) : Behaviour Unit
  | unnamed {reply f} (h : Reply.succeeded reply = false) :
      Pushes r c [r.ran ["remote"] reply] (.error f) c
  | unknown {o t c' f f'} (h : o.success = true) (look : r.Selects c t (.error f) c') :
      Pushes r c (r.ran ["remote"] (.ok o) :: t) (.error f') c'
  | missing {o t b? c' f} (h : o.success = true) (look : r.Selects c t (.ok b?) c')
      (hnone : firstRemote? o.stdout = none ∨ b? = none) :
      Pushes r c (r.ran ["remote"] (.ok o) :: t) (.error f) c'
  | unanswered {o remote t₁ b c' t₂ f} (h : o.success = true)
      (hr : firstRemote? o.stdout = some remote) (look : r.Selects c t₁ (.ok (some b)) c')
      (ask : r.Asks c' t₂ (.error f) c') :
      Pushes r c ([r.ran ["remote"] (.ok o)] ++ (t₁ ++ t₂)) (.error f) c'
  | refused {o remote t₁ b c' t₂ main f} (h : o.success = true)
      (hr : firstRemote? o.stdout = some remote) (look : r.Selects c t₁ (.ok (some b)) c')
      (ask : r.Asks c' t₂ (.ok main) c') (hb : b.name = main) :
      Pushes r c ([r.ran ["remote"] (.ok o)] ++ (t₁ ++ t₂)) (.error f) c'
  | unstaged {o remote t₁ b c' t₂ main reply f} (h : o.success = true)
      (hr : firstRemote? o.stdout = some remote) (look : r.Selects c t₁ (.ok (some b)) c')
      (ask : r.Asks c' t₂ (.ok main) c') (hb : b.name ≠ main)
      (h' : Reply.succeeded reply = false) :
      Pushes r c ([r.ran ["remote"] (.ok o)] ++ (t₁ ++ (t₂ ++ [r.ran ["add", "."] reply])))
        (.error f) c'
  | sent {o remote t₁ b c' t₂ main o' t₃ out} (h : o.success = true)
      (hr : firstRemote? o.stdout = some remote) (look : r.Selects c t₁ (.ok (some b)) c')
      (ask : r.Asks c' t₂ (.ok main) c') (hb : b.name ≠ main) (h' : o'.success = true)
      (push : r.Reads (pushArgs remote b.name) (fun _ => ()) c' t₃ out c') :
      Pushes r c
        ([r.ran ["remote"] (.ok o)] ++ (t₁ ++ (t₂ ++ ([r.ran ["add", "."] (.ok o')] ++ t₃)))) out c'

theorem push_sends : (r.push w).Sends w c (r.Pushes c) := by
  unfold push
  refine (Reads.mapFault remoteName_sends).bind ?_ ?_
  · rintro t remote? c' (⟨h, hr⟩)
    refine Selects.mapFault.bind ?_ ?_
    · intro t₁ b? c' look
      match remote?, b? with
      | none, _ => exact Git.sends_throw (by rw [List.append_nil]; exact .missing h look (.inl hr))
      | some _, none => exact Git.sends_throw (by rw [List.append_nil]; exact .missing h look (.inr rfl))
      | some remote, some b =>
        refine mainBranchName_sends.bind ?_ ?_
        · intro t₂ main c'' ask
          obtain rfl : c'' = c' := by cases ask; rfl
          by_cases hb : b.name = main
          · simp only [hb, if_true]
            exact Git.sends_throw_bind (by rw [List.append_nil]; exact .refused h hr look ask hb)
          · simp only [hb, if_false]
            refine (Reads.mapFault (git_sends _)).bind ?_ ?_
            · rintro t o c' (⟨ho, rfl⟩)
              refine (Reads.map (fun _ => ()) (Reads.mapFault (git_sends _))).mono fun t₃ out c' sent => ?_
              obtain rfl : c' = c'' := by cases sent <;> rfl
              exact .sent h hr look ask hb ho sent
            · rintro t e c' (⟨⟩ | ⟨ho⟩)
              exact .unstaged h hr look ask hb ho
        · intro t₂ f c'' ask
          obtain rfl : c'' = c' := by cases ask; rfl
          exact .unanswered h hr look ask
    · intro t₁ f c' look
      exact .unknown h look
  · rintro t e c' (⟨⟩ | ⟨h⟩)
    exact .unnamed h

end Repository

end CodeSweep
