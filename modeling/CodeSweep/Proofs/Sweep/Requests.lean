import CodeSweep.Proofs.Git.Remembering
import CodeSweep.Proofs.Sweep.Rounds

/-! # A pull request is for the branch that was pushed

A push takes the branch from what the repository remembers, and the request for a pull request takes it
from the codemod. That they are the same branch is owed to preparing: where it succeeds, HEAD is on the
working branch and what is remembered fits (`remembers_of_prepared`), and nothing that is done until the
repository is published moves HEAD (`OnBranch.elsewhere`). So every push is one of the working branch,
and a request is made only after such a push succeeded, with HEAD on that branch (`Releases.asks`); for
all repositories and all codemods of a sweep (`runEach_requests_pushed`).

Each repository has a working copy of its own outside, in which git has its usual effects; a clone may
leave any working copy (`World.Holds`). -/

namespace CodeSweep

open Branch (Printable)

variable {σ : Type}

/-! ## Working copies that are cloned -/

namespace Exchange

/-- Whether an exchange clones a repository. -/
def clones : Exchange → Bool
  | .command c _ => c.program == "git" && c.args.head? == some "clone"
  | _ => false

/-- Whether an exchange pushes. -/
def pushes : Exchange → Bool
  | .command c _ => c.program == "git" && c.args.head? == some "push"
  | _ => false

/-- Whether an exchange asks for a pull request, through `gh` or of the platform itself. -/
def requests : Exchange → Bool
  | .command c _ => c.program == "gh" && c.args.head? == some "pr"
  | .defaultBranch .. => false
  | .pullRequest .. => true

/-- An exchange that neither clones nor is a command run in `dir`. -/
structure Elsewhere (dir : Path) (e : Exchange) : Prop where
  clones : e.clones = false
  cwd : ∀ command reply, e = .command command reply → command.cwd ≠ dir

end Exchange

theorem Conversation.of_append {w : World σ} {o o'' : σ} {t t' : List Exchange}
    (h : Conversation w o (t ++ t') o'') : ∃ o', Conversation w o t o' ∧ Conversation w o' t' o'' := by
  induction t generalizing o with
  | nil => exact ⟨o, .nil, h⟩
  | cons e t ih =>
      cases h with
      | cons hm rest =>
          obtain ⟨o', hearly, hlate⟩ := ih rest
          exact ⟨o', .cons hm hearly, hlate⟩

/-- Outside, the state holds a working copy in `dir`. Cloning may leave any working copy; besides that,
what happens there is possible, and it is all that happens to the working copy. -/
structure World.Holds (w : World σ) (dir : Path) (notice : String → Prop) (copy : σ → WorkingCopy) :
    Prop where
  allows : ∀ e o o', w.Moves e o o' → e.clones = false → (copy o).Allows dir notice e
  follows : ∀ e o o', w.Moves e o o' → e.clones = false → copy o' = (copy o).next dir e

/-- The exchanges leave HEAD on a branch, whatever the state they begin in. -/
def OnBranch (w : World σ) (copy : σ → WorkingCopy) (branch : String) (t : List Exchange) : Prop :=
  ∀ o o', Conversation w o t o' → (copy o').head = some branch

section Holds

variable {w : World σ} {dir : Path} {notice : String → Prop} {copy : σ → WorkingCopy} {branch : String}
  {t t' : List Exchange} {g : WorkingCopy}

theorem World.Holds.replay_eq (hw : w.Holds dir notice copy) {o o' : σ} (h : Conversation w o t o')
    (hclones : ∀ e ∈ t, e.clones = false) :
    copy o' = (copy o).replay dir t ∧ (copy o).Explains dir notice t := by
  induction h with
  | nil => exact ⟨rfl, trivial⟩
  | cons hm _ ih =>
      have hfirst := hclones _ List.mem_cons_self
      obtain ⟨hreplay, hexplains⟩ := ih fun e he => hclones e (List.mem_cons_of_mem _ he)
      rw [hw.follows _ _ _ hm hfirst] at hreplay hexplains
      exact ⟨hreplay, hw.allows _ _ _ hm hfirst, hexplains⟩

theorem OnBranch.append (hw : w.Holds dir notice copy) (h : OnBranch w copy branch t)
    (hclones : ∀ e ∈ t', e.clones = false) (hhead : ∀ g : WorkingCopy, (g.replay dir t').head = g.head) :
    OnBranch w copy branch (t ++ t') := by
  intro o o'' hconv
  obtain ⟨o', hearly, hlate⟩ := hconv.of_append
  rw [(hw.replay_eq hlate hclones).1, hhead]
  exact h o o' hearly

theorem Exchange.Elsewhere.succeeded?_eq {e : Exchange} (h : e.Elsewhere dir) :
    WorkingCopy.succeeded? dir e = none := by
  unfold WorkingCopy.succeeded?
  split
  next command o => rw [if_neg fun hc => h.cwd _ _ rfl hc.1]
  next => rfl

theorem WorkingCopy.next_elsewhere {e : Exchange} (h : e.Elsewhere dir) : g.next dir e = g := by
  rw [next, h.succeeded?_eq]

theorem WorkingCopy.replay_elsewhere (h : ∀ e ∈ t, e.Elsewhere dir) : g.replay dir t = g := by
  induction t with
  | nil => rfl
  | cons e t ih =>
      rw [replay_cons, next_elsewhere (h e List.mem_cons_self)]
      exact ih fun e he => h e (List.mem_cons_of_mem _ he)

/-- What is done elsewhere leaves HEAD where it is. -/
theorem OnBranch.elsewhere (hw : w.Holds dir notice copy) (h : OnBranch w copy branch t)
    (ht' : ∀ e ∈ t', e.Elsewhere dir) : OnBranch w copy branch (t ++ t') :=
  h.append hw (fun e he => (ht' e he).clones) fun _ => by rw [WorkingCopy.replay_elsewhere ht']

end Holds

/-! ## Pushes and requests -/

namespace Repository

variable {r : Repository} {notice : String → Prop} {g : WorkingCopy} {b b' : Option Branch}
  {t : List Exchange} {branch : String}

/-- The exchange asks for a pull request of a branch of the repository. Asked through `gh`, it is one of
the branch that HEAD is on. -/
inductive AsksFor (r : Repository) (branch : String) : Exchange → Prop
  | platform {request answer} (h : request.head = branch) :
      AsksFor r branch (.pullRequest r.address request answer)
  | gh {request reply} (h : request.head = branch) :
      AsksFor r branch
        (.command { cwd := r.path, program := "gh", args := Hosting.requestArgs request } reply)

/-- The branch was pushed with success. -/
def Pushed (r : Repository) (branch : String) (t : List Exchange) : Prop :=
  ∃ remote o, o.success = true ∧ r.ran (pushArgs remote branch) (.ok o) ∈ t

theorem Pushed.append_left (h : r.Pushed branch t) (early : List Exchange) :
    r.Pushed branch (early ++ t) := by
  obtain ⟨remote, o, ho, hran⟩ := h
  exact ⟨remote, o, ho, List.mem_append_right early hran⟩

@[simp] theorem pushes_ran {args : List String} {reply : Reply} :
    (r.ran args reply).pushes = (args.head? == some "push") := by
  simp [Exchange.pushes, ran]

@[simp] theorem requests_ran {args : List String} {reply : Reply} : (r.ran args reply).requests = false := by
  simp [Exchange.requests, ran]

/-- Nothing is pushed, and no pull request is asked for. -/
def Reserved (t : List Exchange) : Prop := ∀ e ∈ t, e.pushes = false ∧ e.requests = false

@[simp] theorem reserved_nil : Reserved [] := nofun

@[simp] theorem reserved_cons {e : Exchange} :
    Reserved (e :: t) ↔ (e.pushes = false ∧ e.requests = false) ∧ Reserved t :=
  List.forall_mem_cons

@[simp] theorem reserved_append {t' : List Exchange} : Reserved (t ++ t') ↔ Reserved t ∧ Reserved t' :=
  List.forall_mem_append

theorem Selects.reserved {out : Except GitFault (Option Branch)} (look : r.Selects b t out b') :
    Reserved t := by
  cases look <;> simp

theorem AsksGh.reserved (h : r.AsksGh t) : Reserved t := by
  cases h <;> simp [Exchange.pushes, Exchange.requests, Hosting.viewArgs]

theorem Asks.reserved {out : Except GitFault String} (ask : r.Asks b t out b') : Reserved t := by
  cases ask with
  | answered hpre => simp [hpre.reserved, Exchange.pushes, Exchange.requests]
  | refused hpre => simp [hpre.reserved, Exchange.pushes, Exchange.requests]

theorem Commits.current_eq {message : String} {out : Except GitFault Unit}
    (commit : r.Commits message b t out b') : b' = b := by
  cases commit <;> rfl

theorem Commits.reserved {message : String} {out : Except GitFault Unit}
    (commit : r.Commits message b t out b') : Reserved t := by
  cases commit <;> simp

theorem Requests.pushes_eq {request : PullRequest} (h : r.Requests request t) :
    ∀ e ∈ t, e.pushes = false := by
  cases h <;> simp [Exchange.pushes]

/-- The branch that is found to be checked out is the one that HEAD is on. -/
theorem Selects.name_eq {found : Branch} (hn : ∀ text, notice text → Printable text)
    (look : r.Selects b t (.ok (some found)) b') (ht : g.Explains r.path notice t)
    (hb : g.Coherent notice b) (hhead : g.head = some branch) : found.name = branch := by
  have hfound := look.coherent hn ht hb
  rw [look.remembered] at hfound
  rcases hfound found rfl with hon | ⟨hoff, -⟩
  · exact Option.some.inj (hon.symm.trans hhead)
  · cases hoff.symm.trans hhead

/-- No pull request is asked for, and nothing but one branch is pushed. -/
def PushesOnly (r : Repository) (branch : String) (t : List Exchange) : Prop :=
  ∀ e ∈ t, e.requests = false ∧
    (e.pushes = true → ∃ remote reply, e = r.ran (pushArgs remote branch) reply)

theorem Reserved.pushesOnly (h : Reserved t) : r.PushesOnly branch t := by
  intro e he
  refine ⟨(h e he).2, fun hpushes => ?_⟩
  rw [(h e he).1] at hpushes
  cases hpushes

theorem PushesOnly.append {t' : List Exchange} (h : r.PushesOnly branch t) (h' : r.PushesOnly branch t') :
    r.PushesOnly branch (t ++ t') :=
  List.forall_mem_append.mpr ⟨h, h'⟩

theorem pushesOnly_of_push {remote : String} {out : Except GitFault Unit}
    (push : r.Reads (pushArgs remote branch) (fun _ => ()) b t out b') :
    r.PushesOnly branch t ∧ (out = .ok () → r.Pushed branch t) := by
  cases push with
  | @done o _ ho =>
      refine ⟨?_, fun _ => ⟨remote, o, ho, List.mem_singleton_self _⟩⟩
      intro e he
      cases List.mem_singleton.mp he
      exact ⟨requests_ran, fun _ => ⟨remote, _, rfl⟩⟩
  | failed =>
      refine ⟨?_, nofun⟩
      intro e he
      cases List.mem_singleton.mp he
      exact ⟨requests_ran, fun _ => ⟨remote, _, rfl⟩⟩

/-- With HEAD on a branch, that is the branch that is pushed, if anything is. -/
theorem Pushes.pushesOnly {out : Except GitFault Unit} (hn : ∀ text, notice text → Printable text)
    (push : r.Pushes b t out b') (ht : g.Explains r.path notice t) (hb : g.Coherent notice b)
    (hhead : g.head = some branch) :
    r.PushesOnly branch t ∧ (out = .ok () → r.Pushed branch t) := by
  have hreserved : Reserved t → r.PushesOnly branch t := Reserved.pushesOnly
  cases push with
  | unnamed => exact ⟨hreserved (by simp), nofun⟩
  | unknown _ look => exact ⟨hreserved (by simp [look.reserved]), nofun⟩
  | missing _ look => exact ⟨hreserved (by simp [look.reserved]), nofun⟩
  | unanswered _ _ look ask => exact ⟨hreserved (by simp [look.reserved, ask.reserved]), nofun⟩
  | refused _ _ look ask => exact ⟨hreserved (by simp [look.reserved, ask.reserved]), nofun⟩
  | unstaged _ _ look ask => exact ⟨hreserved (by simp [look.reserved, ask.reserved]), nofun⟩
  | @sent o remote t₁ found _ t₂ _ o' t₃ _ _ _ look ask _ _ push =>
      simp only [WorkingCopy.explains_append, WorkingCopy.replay_cons, WorkingCopy.next_remote,
        WorkingCopy.replay_nil] at ht
      rw [look.name_eq hn ht.2.1 hb hhead] at push
      obtain ⟨honly, hpushed⟩ := pushesOnly_of_push push
      have hearly : Reserved ([r.ran ["remote"] (.ok o)] ++ t₁ ++ t₂ ++ [r.ran ["add", "."] (.ok o')]) := by
        simp [look.reserved, ask.reserved]
      have hsplit : [r.ran ["remote"] (.ok o)] ++ (t₁ ++ (t₂ ++ ([r.ran ["add", "."] (.ok o')] ++ t₃))) =
          ([r.ran ["remote"] (.ok o)] ++ t₁ ++ t₂ ++ [r.ran ["add", "."] (.ok o')]) ++ t₃ := by
        simp
      rw [hsplit]
      exact ⟨hearly.pushesOnly.append honly, fun hok => (hpushed hok).append_left _⟩

end Repository

/-! ## Releasing a repository -/

namespace Campaign

variable {c : Campaign} {r : Repository} {notice : String → Prop} {g : WorkingCopy} {b : Option Branch}
  {t : List Exchange}

/-- The exchange asks for a pull request of the working branch, after that was pushed with success and
while HEAD is where it was. -/
def AsksAfterPush (c : Campaign) (r : Repository) (before : List Exchange) (e : Exchange) : Prop :=
  r.AsksFor c.branch e ∧ r.Pushed c.branch before ∧
    ∀ g : WorkingCopy, (g.replay r.path before).head = g.head

theorem throughout_of_pushesOnly {branch : String} {Q : List Exchange → Exchange → List Exchange → Prop}
    (h : r.PushesOnly branch t) :
    Throughout (fun before e after => e.requests = true → Q before e after) t := by
  rintro before e after rfl hrequests
  rw [(h e (by simp)).1] at hrequests
  cases hrequests

/-- After a push, a request is one for the branch that was pushed. -/
theorem asksAfterPush_of_requests {t₁ t₂ t₃ : List Exchange}
    (hpushed : r.Pushed c.branch (t₁ ++ t₂))
    (hhead : ∀ g : WorkingCopy, (g.replay r.path (t₁ ++ t₂)).head = g.head)
    (request : r.Requests c.request t₃) :
    Throughout (fun before e _ => e.requests = true → c.AsksAfterPush r (t₁ ++ (t₂ ++ before)) e) t₃ := by
  cases request with
  | service =>
      simp only [throughout_cons, throughout_nil, and_true, List.append_nil]
      exact fun _ => ⟨.platform rfl, hpushed, hhead⟩
  | gh =>
      simp only [throughout_cons, throughout_nil, and_true, List.append_nil]
      refine ⟨fun _ => ⟨.gh rfl, hpushed, hhead⟩, fun _ => ⟨.platform rfl, ?_, fun g => ?_⟩⟩
      · rw [← List.append_assoc]
        obtain ⟨remote, o, ho, hran⟩ := hpushed
        exact ⟨remote, o, ho, List.mem_append_left _ hran⟩
      -- asking moves nothing
      · rw [← List.append_assoc, WorkingCopy.replay_append, WorkingCopy.replay_cons, WorkingCopy.next_gh]
        exact hhead g

/-- With HEAD on the working branch, only that is pushed, and a pull request is asked for only after
that. -/
theorem Releases.asks (hn : ∀ text, notice text → Printable text) (release : c.Releases r b t)
    (ht : g.Explains r.path notice t) (hb : g.Coherent notice b) (hhead : g.head = some c.branch) :
    (∀ e ∈ t, e.pushes = true → ∃ remote reply, e = r.ran (Repository.pushArgs remote c.branch) reply) ∧
      Throughout (fun before e _ => e.requests = true → c.AsksAfterPush r before e) t := by
  cases release with
  | uncommitted commit =>
      have honly : r.PushesOnly c.branch t := commit.reserved.pushesOnly
      exact ⟨fun e he => (honly e he).2, throughout_of_pushesOnly honly⟩
  | @unpushed t₁ b' t₂ _ _ commit push =>
      rw [WorkingCopy.explains_append, commit.replay_eq] at ht
      have honly : r.PushesOnly c.branch (t₁ ++ t₂) :=
        commit.reserved.pushesOnly.append (push.pushesOnly hn ht.2 (commit.current_eq ▸ hb) hhead).1
      exact ⟨fun e he => (honly e he).2, throughout_of_pushesOnly honly⟩
  | @requested t₁ b' t₂ _ t₃ commit push request =>
      rw [WorkingCopy.explains_append, WorkingCopy.explains_append, commit.replay_eq] at ht
      have hcommit : r.PushesOnly c.branch t₁ := commit.reserved.pushesOnly
      obtain ⟨hpush, hpushed⟩ := push.pushesOnly hn ht.2.1 (commit.current_eq ▸ hb) hhead
      constructor
      · intro e he hpushes
        rcases List.mem_append.mp he with he | he
        · exact (hcommit e he).2 hpushes
        rcases List.mem_append.mp he with he | he
        · exact (hpush e he).2 hpushes
        · rw [request.pushes_eq e he] at hpushes
          cases hpushes
      · refine throughout_append.mpr ⟨throughout_of_pushesOnly hcommit, ?_⟩
        refine throughout_append.mpr ⟨throughout_of_pushesOnly hpush, ?_⟩
        refine asksAfterPush_of_requests ((hpushed rfl).append_left t₁) (fun g => ?_) request
        rw [WorkingCopy.replay_append, commit.replay_eq, push.head_eq]

end Campaign

/-! ## Turns that do not clone -/

section Unclone

variable {w : World σ} {s : Session σ}

/-- No operation but `clone` clones. -/
theorem Repository.served_of_unclone (w : World σ) (r : Repository) :
    r.Served w w (Session.Beside (s.Adds (·.clones = false))) (·.head? ≠ some "clone") := by
  refine served_of_adds w (fun args hargs => ?_) (fun args reply hargs => ?_) (fun _ => rfl) fun _ => rfl
  · simp only [isRoutine, Bool.and_eq_true, bne_iff_ne] at hargs
    exact hargs.1.1
  · simpa [Exchange.clones] using hargs

theorem Checkout.prepare_unclone (copy : Checkout) (working : String) (s : Session σ) :
    ∀ e ∈ (copy.turn (·.prepare w working) s).said, e.clones = false := by
  have hprepare : Session.Paired (Session.Beside (s.Adds (·.clones = false)))
      (copy.perform (·.prepare w working)) (copy.perform (·.prepare w working)) :=
    perform_paired (Repository.prepare_paired (Repository.served_of_unclone w copy.repository) working)
  obtain ⟨-, -, hadds⟩ := hprepare s s ⟨rfl, .of_eq rfl⟩
  exact Turn.forall_said (hadds.report _)

theorem Campaign.publish_unclone (c : Campaign) (copy : Checkout) (s : Session σ) :
    ∀ e ∈ (c.turn w copy s).said, e.clones = false := by
  have hrequest := Session.paired_beside (x := copy.repository.openRequest w c.request)
    (Q := s.Adds (·.clones = false)) fun _ hs =>
      hs.trans (Session.adds_openRequest w _ _ (fun _ => rfl) fun _ => rfl)
  have hadds := (publishOne_paired (c := c) (Repository.served_of_unclone w copy.repository) (by simp)
    (by simp) hrequest s s ⟨rfl, .of_eq rfl⟩).2.2
  exact Turn.forall_said hadds

/-- What is said in one repository's turn is elsewhere for another. -/
theorem Turn.Sound.elsewhere {turn : Turn σ} {r : Repository} (h : turn.Sound w)
    (hclones : ∀ e ∈ turn.said, e.clones = false) (hpath : turn.repository.path ≠ r.path) :
    ∀ e ∈ turn.said, e.Elsewhere r.path := by
  intro e he
  refine ⟨hclones e he, ?_⟩
  rintro command reply rfl
  have howns := h.concerns _ he
  have hunclone := hclones _ he
  rcases Bool.or_eq_true_iff.mp howns with hclone | hcwd
  · cases eq_of_beq hclone
    simp [Exchange.clones, Repository.cloneCommand] at hunclone
  · rw [eq_of_beq hcwd]
    exact hpath

end Unclone

namespace Sweep

variable {w : World σ} {sweep : Sweep} {c : Campaign} {s : Session σ} {copy : Path → σ → WorkingCopy}
  {prepared : List Checkout} {gathered : Session σ} {turn : Turn σ}

theorem unclone_of_prepareTurns (hturn : turn ∈ sweep.prepareTurns w c s) :
    ∀ e ∈ turn.said, e.clones = false := by
  obtain ⟨given, -, s', rfl⟩ := Turn.exists_of_mem_row hturn
  exact Checkout.prepare_unclone given c.branch s'

theorem unclone_of_publishTurns {ran : Except Fault (RunReport × Disk)}
    (hturn : turn ∈ sweep.publishTurns w c prepared gathered ran) :
    ∀ e ∈ turn.said, e.clones = false := by
  rw [(mem_publishTurns hturn).2.2]
  exact c.publish_unclone turn.copy turn.before

/-- A repository that was prepared remembers the working branch, if any. -/
theorem remembers_of_prepared (hw : w.Holds turn.repository.path IsNotice (copy turn.repository.path))
    (hturn : turn ∈ sweep.prepareTurns w c s) (hok : turn.outcome = .ok ()) :
    ∀ b ∈ turn.left.current, b.name = c.branch := by
  have prepare := prepares_of_turn hturn hok
  have hconv := (sound_prepareTurns w sweep c s turn hturn).leads.conversation
  have ht := (hw.replay_eq hconv (unclone_of_prepareTurns hturn)).2
  have hhead := (prepare.reconciled ht WorkingCopy.coherent_none).1
  have hcoherent := prepare.coherent (fun _ => IsNotice.printable) ht WorkingCopy.coherent_none
  intro b hb
  rcases hcoherent b hb with hon | ⟨hoff, -⟩
  · exact Option.some.inj (hon.symm.trans hhead)
  · cases hoff.symm.trans hhead

/-- And HEAD is on the working branch, whatever came before. -/
theorem onBranch_of_prepared (hw : w.Holds turn.repository.path IsNotice (copy turn.repository.path))
    (hturn : turn ∈ sweep.prepareTurns w c s) (hok : turn.outcome = .ok ()) (early : List Exchange) :
    OnBranch w (copy turn.repository.path) c.branch (early ++ turn.said) := by
  intro o o'' hconv
  obtain ⟨o', -, hlate⟩ := hconv.of_append
  obtain ⟨hreplay, ht⟩ := hw.replay_eq hlate (unclone_of_prepareTurns hturn)
  rw [hreplay]
  exact ((prepares_of_turn hturn hok).reconciled ht WorkingCopy.coherent_none).1

end Sweep

/-! ## Whole sweeps -/

/-- An exchange fits the ones before it: if it pushes, it is a push of the working branch; if it asks for a
pull request, it is one of that branch, which was pushed in that repository and which HEAD is on there. -/
structure Campaign.Fits (w : World σ) (copy : Path → σ → WorkingCopy) (c : Campaign)
    (repositories : List Repository) (before : List Exchange) (e : Exchange) : Prop where
  pushes : e.pushes = true →
    ∃ r ∈ repositories, ∃ remote reply, e = r.ran (Repository.pushArgs remote c.branch) reply
  requests : e.requests = true →
    ∃ r ∈ repositories, r.AsksFor c.branch e ∧ r.Pushed c.branch before ∧
      OnBranch w (copy r.path) c.branch before

theorem Turn.throughout_said {P : List Exchange → Exchange → Prop} {turns : List (Turn σ)}
    (h : ∀ earlier turn later, turns = earlier ++ turn :: later →
      Throughout (fun before e _ => P (earlier.flatMap (·.said) ++ before) e) turn.said) :
    Throughout (fun before e _ => P before e) (turns.flatMap (·.said)) := by
  induction turns generalizing P with
  | nil => exact throughout_nil
  | cons turn turns ih =>
      rw [List.flatMap_cons]
      refine throughout_append.mpr ⟨h [] turn turns rfl, ih fun earlier other later hsplit => ?_⟩
      have hother := h (turn :: earlier) other later (by rw [hsplit]; rfl)
      simpa only [List.flatMap_cons, List.append_assoc] using hother

namespace Sweep

variable {w : World σ} {sweep : Sweep} {c : Campaign} {s : Session σ} {copy : Path → σ → WorkingCopy}
  {prepared : List Checkout} {gathered : Session σ} {turn : Turn σ}

/-- Until repositories are published, nothing is pushed or asked for. -/
theorem reserved_of_gather (hgather : sweep.gather w c s = (.ok prepared, gathered)) :
    Repository.Reserved ((sweep.cloneTurns w c s ++ sweep.prepareTurns w c s).flatMap (·.said)) := by
  have haccounts := gather_accounts (w := w) (enter_of_gather hgather)
  obtain ⟨t, ht, hquiet⟩ := (gather_spec (w := w) (by rw [hgather])).2
  rw [haccounts.leads.transcript, List.append_cancel_left_eq] at ht
  subst ht
  intro e he
  have hpublishes : e.publishes = false := hquiet e he
  cases e with
  | command command reply =>
      simp only [Exchange.publishes, Bool.or_eq_false_iff, Bool.and_eq_false_imp] at hpublishes
      simp only [Exchange.pushes, Exchange.requests, Bool.and_eq_false_imp]
      exact ⟨fun hgit => (hpublishes.1 hgit).2, hpublishes.2⟩
  | defaultBranch => exact ⟨rfl, rfl⟩
  | pullRequest => cases hpublishes

/-- Once repositories are cloned, what is said in the turns of the others is elsewhere for one. -/
theorem elsewhere_of_others {ran : Except Fault (RunReport × Disk)} {r : Repository}
    {others : List (Turn σ)} (hgather : sweep.gather w c s = (.ok prepared, gathered))
    (hrun : c.codemod.run (sweep.workDir c) (sweep.options prepared) gathered.disk = ran)
    (hr : r ∈ sweep.repositoriesOf c)
    (hsub : others ⊆ sweep.prepareTurns w c s ++ sweep.publishTurns w c prepared gathered ran)
    (hne : ∀ other ∈ others, other.repository ≠ r) :
    ∀ e ∈ others.flatMap (·.said), e.Elsewhere r.path := by
  intro e he
  obtain ⟨other, hother, he⟩ := List.mem_flatMap.mp he
  have hturn : other ∈ sweep.turns w c s := by
    rw [turns_of_gather hgather hrun]
    exact List.mem_append_right _ (hsub hother)
  have hclones : ∀ e ∈ other.said, e.clones = false := by
    rcases List.mem_append.mp (hsub hother) with hother | hother
    · exact unclone_of_prepareTurns hother
    · exact unclone_of_publishTurns hother
  refine (sound_of_turn hturn).elsewhere hclones (fun hpath => hne other hother ?_) e he
  exact Repository.eq_of_path (repository_mem_of_turn hturn) hr hpath

section Copies

variable (hw : ∀ r ∈ sweep.repositoriesOf c, w.Holds r.path IsNotice (copy r.path))

include hw

/-- When a repository's turn at being published comes, it is as preparing left it. -/
theorem onBranch_of_publishTurns {ran : Except Fault (RunReport × Disk)} {earlier later : List (Turn σ)}
    (hgather : sweep.gather w c s = (.ok prepared, gathered))
    (hrun : c.codemod.run (sweep.workDir c) (sweep.options prepared) gathered.disk = ran)
    (hsplit : sweep.publishTurns w c prepared gathered ran = earlier ++ turn :: later) :
    (∀ b ∈ turn.copy.current, b.name = c.branch) ∧
      OnBranch w (copy turn.repository.path) c.branch
        ((sweep.cloneTurns w c s ++ (sweep.prepareTurns w c s ++ earlier)).flatMap (·.said)) := by
  have hturn : turn ∈ sweep.publishTurns w c prepared gathered ran := by simp [hsplit]
  have hcopy := (mem_publishTurns hturn).2.1
  have hr : turn.repository ∈ sweep.repositoriesOf c :=
    (repositories_prepared hgather).subset (List.mem_map_of_mem hcopy)
  rw [prepared_eq hgather] at hcopy
  obtain ⟨preparing, hpreparing, hok, hleft⟩ := Turn.mem_kept.mp hcopy
  have hsame : turn.repository = preparing.repository := by
    rw [← (sound_prepareTurns w sweep c s preparing hpreparing).left, hleft]
    rfl
  rw [hsame] at hr ⊢
  refine ⟨hleft ▸ remembers_of_prepared (hw _ hr) hpreparing hok, ?_⟩
  obtain ⟨before, after, haround⟩ := List.append_of_mem hpreparing
  -- no turn between the two is one of this repository
  have hothers : ∀ other ∈ after ++ earlier, other.repository ≠ preparing.repository := by
    have hprepared := nodup_prepareTurns w sweep c s
    have hpublished := ((nodup_repositoriesOf sweep c).sublist (repositories_prepared hgather)).sublist
      (repositories_publishTurns w sweep c prepared gathered ran)
    rw [haround, List.map_append, List.map_cons, List.nodup_middle, List.nodup_cons] at hprepared
    rw [hsplit, List.map_append, List.map_cons, List.nodup_middle, List.nodup_cons, hsame] at hpublished
    intro other hother heq
    rcases List.mem_append.mp hother with hother | hother
    · exact hprepared.1 (heq ▸ List.mem_append_right _ (List.mem_map_of_mem hother))
    · exact hpublished.1 (heq ▸ List.mem_append_left _ (List.mem_map_of_mem hother))
  have hsub : after ++ earlier ⊆
      sweep.prepareTurns w c s ++ sweep.publishTurns w c prepared gathered ran := by
    rw [hsplit, haround]
    intro other hother
    rcases List.mem_append.mp hother with hother | hother <;> simp [hother]
  have hon := (onBranch_of_prepared (hw _ hr) hpreparing hok
    ((sweep.cloneTurns w c s ++ before).flatMap (·.said))).elsewhere (hw _ hr)
      (elsewhere_of_others hgather hrun hr hsub hothers)
  rw [haround]
  simpa only [List.flatMap_append, List.flatMap_cons, List.append_assoc, List.cons_append] using hon

/-- A turn at being published fits all that came before it. -/
theorem fits_of_publishTurns {ran : Except Fault (RunReport × Disk)} {earlier later : List (Turn σ)}
    (hgather : sweep.gather w c s = (.ok prepared, gathered))
    (hrun : c.codemod.run (sweep.workDir c) (sweep.options prepared) gathered.disk = ran)
    (hsplit : sweep.publishTurns w c prepared gathered ran = earlier ++ turn :: later) :
    Throughout (fun before e _ => c.Fits w copy (sweep.repositoriesOf c)
      ((sweep.cloneTurns w c s ++ (sweep.prepareTurns w c s ++ earlier)).flatMap (·.said) ++ before) e)
      turn.said := by
  obtain ⟨hremembers, hon⟩ := onBranch_of_publishTurns hw hgather hrun hsplit
  have hturn : turn ∈ sweep.publishTurns w c prepared gathered ran := by simp [hsplit]
  have hclones := unclone_of_publishTurns hturn
  have hr : turn.repository ∈ sweep.repositoriesOf c :=
    (repositories_prepared hgather).subset (List.mem_map_of_mem (mem_publishTurns hturn).2.1)
  -- HEAD is on the working branch when the turn begins, and what is remembered fits
  have haccounts := outcomeOf_accounts w sweep c s
  have hturns : sweep.turns w c s =
      (sweep.cloneTurns w c s ++ (sweep.prepareTurns w c s ++ earlier)) ++ turn :: later := by
    rw [turns_of_gather hgather hrun, hsplit]
    simp
  rw [hturns] at haccounts
  obtain ⟨hbefore, hsound, -⟩ := haccounts.split
  have hhead := hon _ _ hbefore.leads.conversation
  have hcoherent : (copy turn.repository.path turn.before.outside).Coherent IsNotice turn.copy.current :=
    fun b hb => .inl (by rw [hremembers b hb]; exact hhead)
  have hexplains := ((hw _ hr).replay_eq hsound.leads.conversation hclones).2
  have release : c.Releases turn.repository turn.copy.current turn.said := by
    have hreleases := (c.turn_releases w turn.copy turn.before).2
    rwa [← (mem_publishTurns hturn).2.2] at hreleases
  obtain ⟨hpushes, hrequests⟩ := release.asks (fun _ => IsNotice.printable) hexplains hcoherent hhead
  intro before e after hsaid
  have hmem : e ∈ turn.said := by simp [hsaid]
  refine ⟨fun hpush => ⟨turn.repository, hr, hpushes e hmem hpush⟩, fun hrequest => ?_⟩
  obtain ⟨hasks, hpushed, hstays⟩ := hrequests before e after hsaid hrequest
  refine ⟨turn.repository, hr, hasks, hpushed.append_left _, hon.append (hw _ hr) (fun e' he' => ?_) hstays⟩
  exact hclones e' (by simp [hsaid, he'])

/-- In a sweep with one codemod, every exchange fits the ones before it. -/
theorem fits_of_turns :
    Throughout (fun before e _ => c.Fits w copy (sweep.repositoriesOf c) before e)
      ((sweep.turns w c s).flatMap (·.said)) := by
  cases henter : (sweep.enter c s).1 with
  | error cause =>
      rw [turns_of_enter_error henter]
      exact throughout_nil
  | ok _ =>
      obtain ⟨prepared, gathered, hgather⟩ := exists_gathered (w := w) henter
      rw [turns_of_gather hgather rfl, ← List.append_assoc, List.flatMap_append]
      refine throughout_append.mpr ⟨?_, Turn.throughout_said fun earlier turn later hsplit => ?_⟩
      · intro before e after hsaid
        obtain ⟨hpushes, hrequests⟩ := reserved_of_gather hgather e (by simp [hsaid])
        exact ⟨fun h => absurd (hpushes.symm.trans h) nofun, fun h => absurd (hrequests.symm.trans h) nofun⟩
      · have hfits := fits_of_publishTurns hw hgather rfl hsplit
        rw [← List.append_assoc] at hfits
        simpa only [List.flatMap_append, List.append_assoc] using hfits

end Copies

/-- What is said for each codemod of a sweep. -/
def parts (w : World σ) (sweep : Sweep) : List Campaign → Session σ → List (Campaign × List Exchange)
  | [], _ => []
  | c :: rest, s =>
    (c, (sweep.turns w c s).flatMap (·.said)) :: sweep.parts w rest (sweep.outcomeOf w c s).2

/-- **A pull request is for the branch that was pushed.** What is said in a sweep is what is said for each
of its codemods, one after the other; and there every push is one of the working branch of the codemod,
and every request for a pull request is one of that branch, after it was pushed with success in that
repository, and while HEAD is on it there. -/
theorem runEach_requests_pushed (w : World σ) (sweep : Sweep) (copy : Path → σ → WorkingCopy)
    (campaigns : List Campaign)
    (hw : ∀ c ∈ campaigns, ∀ r ∈ sweep.repositoriesOf c, w.Holds r.path IsNotice (copy r.path))
    (s : Session σ) :
    s.Leads w ((sweep.parts w campaigns s).flatMap (·.2)) (sweep.runEach w campaigns s).2 ∧
      (sweep.parts w campaigns s).map (·.1) = campaigns ∧
      ∀ part ∈ sweep.parts w campaigns s,
        Throughout (fun before e _ => part.1.Fits w copy (sweep.repositoriesOf part.1) before e) part.2 := by
  induction campaigns generalizing s with
  | nil => exact ⟨.nothing rfl rfl, rfl, nofun⟩
  | cons c rest ih =>
      obtain ⟨hleads, hmap, hparts⟩ := ih (fun c' hc' => hw c' (List.mem_cons_of_mem _ hc'))
        (sweep.outcomeOf w c s).2
      have hrest : (sweep.runEach w (c :: rest) s).2 =
          (sweep.runEach w rest (sweep.outcomeOf w c s).2).2 := rfl
      rw [parts, hrest, List.flatMap_cons, List.map_cons, hmap, List.forall_mem_cons]
      dsimp only
      exact ⟨(outcomeOf_accounts w sweep c s).leads.trans hleads, rfl,
        fits_of_turns (hw c List.mem_cons_self), hparts⟩

/-- A world with a working copy in every directory. -/
def fleet (remote main : String) (plan : Nat → Option WorkingCopy.Failure) :
    World (Nat × (Path → WorkingCopy)) where
  run command
    | (disk, n, copies) =>
      let (reply, disk, n, g) :=
        WorkingCopy.simulate command.cwd remote plan command (disk, n, copies command.cwd)
      (reply, disk, n, fun dir => if dir = command.cwd then g else copies dir)
  hosting := Hosting.ofTables (fun _ => some main) (fun _ => some "https://host/1")

theorem fleet_holds {remote main : String} {plan : Nat → Option WorkingCopy.Failure}
    {notice : String → Prop} (hn : notice "(no branch)") (dir : Path) :
    (fleet remote main plan).Holds dir notice (fun o => o.2 dir) := by
  have hworld : (WorkingCopy.world dir remote main plan).Keeps dir notice (·.2) :=
    WorkingCopy.world_keeps hn
  have step : ∀ e o o', (fleet remote main plan).Moves e o o' → e.clones = false →
      (o.2 dir).Allows dir notice e ∧ o'.2 dir = (o.2 dir).next dir e := by
    rintro e ⟨n, copies⟩ o' hm hclones
    cases e with
    | command command reply =>
        obtain ⟨disk, disk', hrun⟩ := hm
        by_cases hcwd : dir = command.cwd
        -- a command in the directory does what it does where there is no other
        · rcases hsim : WorkingCopy.simulate command.cwd remote plan command
              (disk, n, copies command.cwd) with ⟨ran, disk₁, n₁, g⟩
          simp only [fleet, hsim, Prod.mk.injEq] at hrun
          obtain ⟨rfl, rfl, rfl⟩ := hrun
          rw [← hcwd] at hsim
          have hmoves : (WorkingCopy.world dir remote main plan).Moves (.command command ran)
              (n, copies dir) (n₁, g) := ⟨disk, disk₁, hsim⟩
          refine ⟨hworld.allows _ _ _ hmoves, ?_⟩
          simp only [if_pos hcwd]
          exact hworld.follows _ _ _ hmoves
        · have helsewhere : (Exchange.command command reply).Elsewhere dir :=
            ⟨hclones, fun _ _ heq hsame => hcwd (by cases heq; exact hsame.symm)⟩
          refine ⟨fun args o hs => ?_, ?_⟩
          · rw [helsewhere.succeeded?_eq] at hs
            cases hs
          · rw [WorkingCopy.next_elsewhere helsewhere, ← (Prod.mk.inj (Prod.mk.inj hrun).2).2]
            exact if_neg hcwd
    | defaultBranch address answer =>
        cases (Prod.mk.inj hm).2
        exact ⟨by simp [WorkingCopy.Allows, WorkingCopy.succeeded?], rfl⟩
    | pullRequest address request answer =>
        cases (Prod.mk.inj hm).2
        exact ⟨by simp [WorkingCopy.Allows, WorkingCopy.succeeded?], rfl⟩
  exact ⟨fun e o o' hm hc => (step e o o' hm hc).1, fun e o o' hm hc => (step e o o' hm hc).2⟩

/-- Two working copies whose HEAD is on no branch. -/
def adrift : Session (Nat × (Path → WorkingCopy)) where
  disk := cluttered.disk
  outside := (0, fun _ => Repository.strayed)

theorem runEach_requests_pushed_adrift :
    (both.runEach (fleet "origin" "main" fun _ => none) [greetings] adrift).2.transcript.any
        (·.requests) = true ∧
      ∀ part ∈ both.parts (fleet "origin" "main" fun _ => none) [greetings] adrift,
        Throughout (fun before e _ => part.1.Fits (fleet "origin" "main" fun _ => none)
          (fun dir o => o.2 dir) (both.repositoriesOf part.1) before e) part.2 :=
  ⟨by decide +kernel,
    (runEach_requests_pushed (fleet "origin" "main" fun _ => none) both (fun dir o => o.2 dir) [greetings]
      (fun _ _ r _ => fleet_holds isNotice_noBranch r.path) adrift).2.2⟩

end Sweep

end CodeSweep
