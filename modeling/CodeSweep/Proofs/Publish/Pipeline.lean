import CodeSweep.Proofs.Sweep.Requests

/-! # The accounts of publishing

Publishing a repository has three phases, and each is entered only when the one before it went through.
An `Account` keeps apart what was said in each of them, and says what came of it:

    committing ──Committed──▶ pushing ──SentOff──▶ asking ──▶ opened, or already open
        │                        │
        ▼                        ▼
    commit failed           push failed

What is said in a phase decides whether the next one is entered and what comes of it (`Account.Agrees`).
This is read off the exchanges alone, whatever the world answers; it is shown of one repository
(`publishOne_accounts`) and from that of all that are published (`publish_accounts`). -/

namespace CodeSweep

variable {σ : Type}

/-! ## Phases -/

namespace Repository

variable {r : Repository} {message : String} {b b' : Option Branch} {t : List Exchange}

/-- Staging went through and so did the commit. Having nothing to commit counts. -/
def Committed (r : Repository) (message : String) (t : List Exchange) : Prop :=
  ∃ o reply, o.success = true ∧ commits reply = true ∧
    t = [r.ran ["add", "."] (.ok o), r.ran ["commit", "-m", message, "--no-verify"] reply]

/-- Staging failed, or else the commit did, and nothing was done after that. -/
inductive Uncommitted (r : Repository) (message : String) : List Exchange → Prop
  | staging {reply} (h : Reply.succeeded reply = false) :
      Uncommitted r message [r.ran ["add", "."] reply]
  | commit {o reply} (h : o.success = true) (h' : commits reply = false) :
      Uncommitted r message
        [r.ran ["add", "."] (.ok o), r.ran ["commit", "-m", message, "--no-verify"] reply]

/-- Some branch was pushed with success. -/
def SentOff (r : Repository) (t : List Exchange) : Prop := ∃ branch, r.Pushed branch t

theorem Committed.not_uncommitted (h : r.Committed message t) : ¬ r.Uncommitted message t := by
  obtain ⟨o, reply, ho, hreply, rfl⟩ := h
  intro hun
  generalize ht : [r.ran ["add", "."] (.ok o), r.ran ["commit", "-m", message, "--no-verify"] reply] = t
    at hun
  cases hun with
  | staging => simp at ht
  | commit _ hno =>
      obtain ⟨-, rfl⟩ : _ ∧ reply = _ := by simpa using ht
      rw [hreply] at hno
      cases hno

theorem Commits.committed_of_ok (h : r.Commits message b t (.ok ()) b') : r.Committed message t := by
  cases h with
  | committed ho hreply => exact ⟨_, _, ho, hreply, rfl⟩

theorem Commits.uncommitted_of_error {fault : GitFault} (h : r.Commits message b t (.error fault) b') :
    r.Uncommitted message t := by
  cases h with
  | unstaged hadd => exact .staging hadd
  | rejected ho hreply => exact .commit ho hreply

theorem Reserved.not_sentOff (h : Reserved t) : ¬ r.SentOff t := by
  rintro ⟨branch, remote, o, -, hran⟩
  have hpushes := (h _ hran).1
  rw [pushes_ran] at hpushes
  cases hpushes

theorem Reserved.sentOff_append {t' : List Exchange} (h : Reserved t) :
    r.SentOff (t ++ t') ↔ r.SentOff t' := by
  constructor
  · rintro ⟨branch, remote, o, ho, hran⟩
    rcases List.mem_append.mp hran with hran | hran
    · exact absurd ⟨branch, remote, o, ho, hran⟩ h.not_sentOff
    · exact ⟨branch, remote, o, ho, hran⟩
  · rintro ⟨branch, hpushed⟩
    exact ⟨branch, hpushed.append_left t⟩

theorem sentOff_iff_of_push {remote branch : String} {out : Except GitFault Unit}
    (push : r.Reads (pushArgs remote branch) (fun _ => ()) b t out b') :
    out = .ok () ↔ r.SentOff t := by
  cases push with
  | @done o _ ho => exact ⟨fun _ => ⟨branch, remote, o, ho, List.mem_singleton_self _⟩, fun _ => rfl⟩
  | @failed reply _ hreply =>
      refine ⟨nofun, ?_⟩
      rintro ⟨branch', remote', o, ho, hran⟩
      obtain ⟨-, rfl⟩ := ran_inj.mp (List.mem_singleton.mp hran)
      rw [Reply.succeeded_ok, ho] at hreply
      cases hreply

/-- Pushing goes through exactly when a branch was pushed with success, and asks for no pull request. -/
theorem Pushes.sentOff_iff {out : Except GitFault Unit} (push : r.Pushes b t out b') :
    (out = .ok () ↔ r.SentOff t) ∧ ∀ e ∈ t, e.requests = false := by
  have hearly : ∀ {t' : List Exchange} {f : GitFault}, Reserved t' →
      (Except.error f = Except.ok () ↔ r.SentOff t') ∧ ∀ e ∈ t', e.requests = false := by
    intro t' f hreserved
    exact ⟨⟨nofun, fun h => absurd h hreserved.not_sentOff⟩, fun e he => (hreserved e he).2⟩
  cases push with
  | unnamed => exact hearly (by simp)
  | unknown _ look => exact hearly (by simp [look.reserved])
  | missing _ look => exact hearly (by simp [look.reserved])
  | unanswered _ _ look ask => exact hearly (by simp [look.reserved, ask.reserved])
  | refused _ _ look ask => exact hearly (by simp [look.reserved, ask.reserved])
  | unstaged _ _ look ask => exact hearly (by simp [look.reserved, ask.reserved])
  | @sent o remote t₁ found _ t₂ _ o' t₃ _ _ _ look ask _ _ push =>
      -- only the last command pushes
      have hbefore : Reserved ([r.ran ["remote"] (.ok o)] ++ (t₁ ++ (t₂ ++ [r.ran ["add", "."] (.ok o')]))) := by
        simp [look.reserved, ask.reserved]
      have hsplit : [r.ran ["remote"] (.ok o)] ++ (t₁ ++ (t₂ ++ ([r.ran ["add", "."] (.ok o')] ++ t₃))) =
          [r.ran ["remote"] (.ok o)] ++ (t₁ ++ (t₂ ++ [r.ran ["add", "."] (.ok o')])) ++ t₃ := by
        simp
      rw [hsplit, hbefore.sentOff_append]
      refine ⟨sentOff_iff_of_push push, List.forall_mem_append.mpr ⟨fun e he => (hbefore e he).2, ?_⟩⟩
      exact fun e he => ((pushesOnly_of_push push).1 e he).1

theorem Answers.unique {request : PullRequest} {answer answer' : Except Fault String}
    (h : r.Answers request t answer) (h' : r.Answers request t answer') : answer = answer' := by
  cases h <;> cases h' <;> rfl

end Repository

/-! ## Accounts -/

/-- How publishing a working copy went: what was said in each phase, and what came of it. -/
structure Account where
  copy : Checkout
  committing : List Exchange
  pushing : List Exchange
  asking : List Exchange
  outcome : PublishOutcome

namespace Account

def repository (account : Account) : Repository := account.copy.repository

/-- All that was said. -/
def said (account : Account) : List Exchange := account.committing ++ (account.pushing ++ account.asking)

def publication (account : Account) : Publication :=
  { address := account.repository.address, outcome := account.outcome }

/-- The event that tells what came of it. -/
def event (account : Account) : Event := account.outcome.event account.repository.address

/-- What was said and what came of it agree. -/
structure Agrees (account : Account) (c : Campaign) : Prop where
  /-- All is said for the repository; the commands are run in its directory. -/
  own : ∀ e ∈ account.said, e.IsFor account.repository
  commitFailed : (∃ fault, account.outcome = .commitFailed fault) ↔
    account.repository.Uncommitted c.message account.committing
  /-- After a failed commit nothing is done. -/
  halted : account.repository.Uncommitted c.message account.committing →
    account.pushing = [] ∧ account.asking = []
  /-- After a commit the repository is pushed. -/
  pushes : account.repository.Committed c.message account.committing →
    ∃ out b, account.repository.Pushes account.copy.current account.pushing out b ∧
      (out = .ok () ↔ account.repository.SentOff account.pushing)
  pushFailed : (∃ fault, account.outcome = .pushFailed fault) ↔
    account.repository.Committed c.message account.committing ∧
      ¬ account.repository.SentOff account.pushing
  /-- No pull request is asked for until the repository was pushed. -/
  patient : (∀ e ∈ account.committing ++ account.pushing, e.requests = false) ∧
    (¬ account.repository.SentOff account.pushing → account.asking = [])
  opened : ∀ url, account.outcome = .opened url ↔
    account.repository.Committed c.message account.committing ∧
      account.repository.SentOff account.pushing ∧
      account.repository.Answers c.request account.asking (.ok url)
  alreadyOpen : account.outcome = .alreadyOpen ↔
    account.repository.Committed c.message account.committing ∧
      account.repository.SentOff account.pushing ∧
      ∃ cause, account.repository.Answers c.request account.asking (.error cause)

end Account

namespace Campaign

variable {w : World σ} {c : Campaign} {copy : Checkout} {s : Session σ} {t : List Exchange}
  {outcome : PublishOutcome} {roots : List Path} {results : List FileResult} {copies : List Checkout}

/-- Once a pull request was asked for, its answer decides what comes of it. -/
theorem agrees_of_answer {b b' : Option Branch} {t₁ t₂ t₃ : List Exchange} {answer : Except Fault String}
    (commit : copy.repository.Commits c.message copy.current t₁ (.ok ()) b)
    (push : copy.repository.Pushes b t₂ (.ok ()) b')
    (request : copy.repository.Answers c.request t₃ answer)
    (hopened : ∀ url, outcome = .opened url ↔ answer = .ok url)
    (hopen : outcome = .alreadyOpen ↔ ∃ cause, answer = .error cause)
    (hown : ∀ e ∈ t₁ ++ (t₂ ++ t₃), e.IsFor copy.repository) :
    Account.Agrees ⟨copy, t₁, t₂, t₃, outcome⟩ c := by
  have hcommitted := commit.committed_of_ok
  obtain ⟨hsent, hquiet⟩ := push.sentOff_iff
  have hsentOff : copy.repository.SentOff t₂ := hsent.mp rfl
  -- no answer stands for a failed commit or a failed push
  have hanswered : (∃ url, outcome = .opened url) ∨ outcome = .alreadyOpen := by
    cases answer with
    | ok url => exact .inl ⟨url, (hopened url).mpr rfl⟩
    | error cause => exact .inr (hopen.mpr ⟨cause, rfl⟩)
  have hfailed : (∀ fault, outcome ≠ .commitFailed fault) ∧ ∀ fault, outcome ≠ .pushFailed fault := by
    rcases hanswered with ⟨url, rfl⟩ | rfl <;> exact ⟨nofun, nofun⟩
  exact {
    own := hown
    commitFailed := ⟨fun ⟨fault, h⟩ => absurd h (hfailed.1 fault), fun h => absurd h hcommitted.not_uncommitted⟩
    halted := fun h => absurd h hcommitted.not_uncommitted
    pushes := fun _ => ⟨_, _, commit.current_eq ▸ push, hsent⟩
    pushFailed := ⟨fun ⟨fault, h⟩ => absurd h (hfailed.2 fault), fun h => absurd hsentOff h.2⟩
    patient := ⟨List.forall_mem_append.mpr ⟨fun e he => (commit.reserved e he).2, hquiet⟩,
      fun h => absurd hsentOff h⟩
    opened := by
      intro url
      rw [hopened url]
      constructor
      · rintro rfl
        exact ⟨hcommitted, hsentOff, request⟩
      · rintro ⟨-, -, h⟩
        exact request.unique h
    alreadyOpen := by
      rw [hopen]
      constructor
      · rintro ⟨cause, rfl⟩
        exact ⟨hcommitted, hsentOff, cause, request⟩
      · rintro ⟨-, -, cause, h⟩
        exact ⟨cause, request.unique h⟩ }

/-- However publishing a repository ends, there is an account of it. -/
theorem Concludes.exists_account (h : c.Concludes copy.repository copy.current t outcome)
    (hown : ∀ e ∈ t, e.IsFor copy.repository) :
    ∃ account : Account, account.copy = copy ∧ account.outcome = outcome ∧ account.said = t ∧
      account.Agrees c := by
  cases h with
  | @uncommitted _ fault _ commit =>
      have hfailed := commit.uncommitted_of_error
      have hnot : ¬ copy.repository.Committed c.message t := fun h => h.not_uncommitted hfailed
      have hsaid : t ++ ([] ++ []) = t := List.append_nil t
      refine ⟨⟨copy, t, [], [], .commitFailed fault⟩, rfl, rfl, hsaid, ?_⟩
      exact {
        own := fun e he => hown e (by rwa [Account.said, hsaid] at he)
        commitFailed := ⟨fun _ => hfailed, fun _ => ⟨fault, rfl⟩⟩
        halted := fun _ => ⟨rfl, rfl⟩
        pushes := fun h => absurd h hnot
        pushFailed := ⟨nofun, fun h => absurd h.1 hnot⟩
        patient := ⟨fun e he => (commit.reserved e (by simpa using he)).2, fun _ => rfl⟩
        opened := fun url => ⟨nofun, fun h => absurd h.1 hnot⟩
        alreadyOpen := ⟨nofun, fun h => absurd h.1 hnot⟩ }
  | @unpushed t₁ _ t₂ fault _ commit push =>
      have hcommitted := commit.committed_of_ok
      obtain ⟨hsent, hquiet⟩ := push.sentOff_iff
      have hnot : ¬ copy.repository.SentOff t₂ := fun h => nomatch hsent.mpr h
      have hsaid : t₁ ++ (t₂ ++ []) = t₁ ++ t₂ := by rw [List.append_nil]
      refine ⟨⟨copy, t₁, t₂, [], .pushFailed fault⟩, rfl, rfl, hsaid, ?_⟩
      exact {
        own := fun e he => hown e (by rwa [Account.said, hsaid] at he)
        commitFailed := ⟨nofun, fun h => absurd h hcommitted.not_uncommitted⟩
        halted := fun h => absurd h hcommitted.not_uncommitted
        pushes := fun _ => ⟨_, _, commit.current_eq ▸ push, hsent⟩
        pushFailed := ⟨fun _ => ⟨hcommitted, hnot⟩, fun _ => ⟨fault, rfl⟩⟩
        patient := ⟨List.forall_mem_append.mpr ⟨fun e he => (commit.reserved e he).2, hquiet⟩, fun _ => rfl⟩
        opened := fun url => ⟨nofun, fun h => absurd h.2.1 hnot⟩
        alreadyOpen := ⟨nofun, fun h => absurd h.2.1 hnot⟩ }
  | @opened t₁ _ t₂ _ t₃ url commit push request =>
      refine ⟨⟨copy, t₁, t₂, t₃, .opened url⟩, rfl, rfl, rfl, ?_⟩
      refine agrees_of_answer commit push request (fun url' => ?_) ⟨nofun, nofun⟩ hown
      rw [PublishOutcome.opened.injEq, Except.ok.injEq]
  | @unopened t₁ _ t₂ _ t₃ cause commit push request =>
      refine ⟨⟨copy, t₁, t₂, t₃, .alreadyOpen⟩, rfl, rfl, rfl, ?_⟩
      exact agrees_of_answer commit push request (fun url => ⟨nofun, nofun⟩)
        ⟨fun _ => ⟨cause, rfl⟩, fun _ => rfl⟩ hown

/-! ## Publishing all of them -/

/-- Publishing a working copy, with an account of it. -/
theorem publishOne_accounts (w : World σ) (c : Campaign) (copy : Checkout) (s : Session σ) :
    ∃ account : Account, account.copy = copy ∧ account.outcome = (c.publishOne w copy s).1.1 ∧
      s.Leads w account.said (c.publishOne w copy s).2 ∧
      (c.publishOne w copy s).2.events = s.events ++ [account.event] ∧ account.Agrees c := by
  obtain ⟨t, hleads, concludes, hevents⟩ := publishOne_concludes w c copy s
  have hown : ∀ e ∈ t, e.IsFor copy.repository := by
    obtain ⟨t', ht', hown⟩ := publishOne_adds (w := w) (c := c) (s := s) copy
    rw [hleads.transcript, List.append_cancel_left_eq] at ht'
    rwa [ht']
  obtain ⟨account, rfl, houtcome, hsaid, hagrees⟩ := concludes.exists_account hown
  refine ⟨account, rfl, houtcome, hsaid ▸ hleads, ?_, hagrees⟩
  rw [hevents, Account.event, houtcome]
  rfl

/-- Publishing working copies, with an account of each whose directory is among the roots. -/
theorem publishEach_accounts (w : World σ) (c : Campaign) (roots : List Path) (copies : List Checkout)
    (s : Session σ) :
    ∃ accounts : List Account, accounts.map (·.copy) = touched roots copies ∧
      (c.publishEach w roots copies s).1.1 = accounts.map (·.publication) ∧
      s.Leads w (accounts.flatMap (·.said)) (c.publishEach w roots copies s).2 ∧
      (c.publishEach w roots copies s).2.events = s.events ++ accounts.map (·.event) ∧
      ∀ account ∈ accounts, account.Agrees c := by
  induction copies generalizing s with
  | nil => exact ⟨[], rfl, rfl, .nothing rfl rfl, (List.append_nil _).symm, nofun⟩
  | cons copy rest ih =>
      cases hcopy : roots.any (·.same copy.repository.path) with
      | false =>
          rw [publishEach_cons_of_not_mem hcopy, touched_cons_of_not_mem hcopy]
          exact ih s
      | true =>
          obtain ⟨account, haccount, houtcome, hleads, hevents, hagrees⟩ := publishOne_accounts w c copy s
          obtain ⟨accounts, hcopies, hpublications, hleads', hevents', hagrees'⟩ :=
            ih (c.publishOne w copy s).2
          rw [publishEach_cons_of_mem hcopy, touched_cons_of_mem hcopy]
          refine ⟨account :: accounts, ?_, ?_, ?_, ?_, List.forall_mem_cons.mpr ⟨hagrees, hagrees'⟩⟩
          · rw [List.map_cons, haccount, hcopies]
          · have hfirst : account.publication =
                { address := (c.publishOne w copy s).1.2.repository.address
                  outcome := (c.publishOne w copy s).1.1 } := by
              rw [Account.publication, Account.repository, haccount, houtcome, repository_publishOne]
            rw [List.map_cons, hfirst]
            dsimp only
            rw [hpublications]
          · rw [List.flatMap_cons]
            exact hleads.trans hleads'
          · rw [List.map_cons]
            dsimp only
            rw [hevents', hevents, List.append_assoc]
            rfl

/-- Whether a file of the repository was changed: it went through with a change, and the root of its result
is the directory of the repository. -/
def hasChange (results : List FileResult) (r : Repository) : Bool :=
  (Codemod.resultsOf r results).any Codemod.isChange

theorem touched_changedRoots :
    touched (changedRoots results) copies = copies.filter fun copy => hasChange results copy.repository :=
  List.filter_congr fun copy _ => Codemod.any_changedRoots copy.repository results

theorem changedRoots_eq_nil_iff : changedRoots results = [] ↔ results.any Codemod.isChange = false := by
  have hchanges : (Codemod.successes results).any (·.changed) = results.any Codemod.isChange := by
    rw [Codemod.successes, List.any_filterMap]
    congr 1
    funext result
    cases result <;> rfl
  rw [changedRoots, List.map_eq_nil_iff, List.filter_eq_nil_iff, ← hchanges, List.any_eq_false]

theorem publish_of_unchanged (h : results.any Codemod.isChange = false) :
    c.publish w results copies s =
      (([], copies), (Session.tell (.nothingTransformed c.codemod.name) s).2) :=
  publish_of_nil (changedRoots_eq_nil_iff.mpr h)

theorem publish_of_changed (h : results.any Codemod.isChange = true) :
    c.publish w results copies s = c.publishEach w (changedRoots results) copies s := by
  refine publish_of_ne_nil fun hnone => ?_
  rw [changedRoots_eq_nil_iff.mp hnone] at h
  cases h

/-- **What is said, what comes of it and what is told agree.** The working copies whose directory is the
root of a changed file are published, in their order, and nothing is said to the world but what is said
for them; what came of each is told once. If no file was changed, that is told instead. -/
theorem publish_accounts (w : World σ) (c : Campaign) (results : List FileResult) (copies : List Checkout)
    (s : Session σ) :
    ∃ accounts : List Account, accounts.map (·.copy) = copies.filter (hasChange results ·.repository) ∧
      (c.publish w results copies s).1.1 = accounts.map (·.publication) ∧
      s.Leads w (accounts.flatMap (·.said)) (c.publish w results copies s).2 ∧
      (c.publish w results copies s).2.events = s.events ++
        (if results.any Codemod.isChange then accounts.map (·.event)
          else [.nothingTransformed c.codemod.name]) ∧
      ∀ account ∈ accounts, account.Agrees c := by
  rw [← touched_changedRoots]
  cases hany : results.any Codemod.isChange with
  | false =>
      have hnone : touched (changedRoots results) copies = [] := by
        rw [changedRoots_eq_nil_iff.mpr hany]
        exact List.filter_eq_nil_iff.mpr fun _ _ => Bool.false_ne_true
      rw [publish_of_unchanged hany, hnone]
      exact ⟨[], rfl, rfl, .nothing rfl rfl, rfl, nofun⟩
  | true =>
      rw [publish_of_changed hany]
      exact publishEach_accounts w c (changedRoots results) copies s

end Campaign

end CodeSweep
