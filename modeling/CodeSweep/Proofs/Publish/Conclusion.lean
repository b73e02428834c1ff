import CodeSweep.Proofs.Git.Behaviour
import CodeSweep.Proofs.Git.Silence
import CodeSweep.Proofs.Sweep.Passes

/-! # How publishing a repository ends

Publishing a repository is a commit, a push and a request, each after the one before it succeeded. What
comes of it says how far it went (`Concludes`),

    commit ──▶ push ──▶ request ──▶ opened
      │         │          └──────▶ already open
      ▼         ▼
    commit    push
    failed    failed

and one event tells of it (`publishOne_concludes`). -/

namespace CodeSweep

variable {σ : Type}

/-! ## Asking for a pull request -/

namespace Repository

variable {w : World σ} {r : Repository} {s : Session σ}

/-- A pull request was asked for and answered: by the hosting platform itself, or by one run of `gh`. -/
inductive Answers (r : Repository) (request : PullRequest) : List Exchange → Except Fault String → Prop
  | service {answer} : Answers r request [.pullRequest r.address request answer] answer
  | gh {reply answer}
      (h : (Hosting.printed (Hosting.requestArgs request) reply).map Text.trim = answer) :
      Answers r request
        [.command { cwd := r.path, program := "gh", args := Hosting.requestArgs request } reply,
          .pullRequest r.address request answer] answer

theorem openRequest_answers (w : World σ) (r : Repository) (request : PullRequest) (s : Session σ) :
    ∃ t, s.Leads w t (r.openRequest w request s).2 ∧ r.Answers request t (r.openRequest w request s).1 := by
  cases hw : w.hosting with
  | gh =>
      have hopen : r.openRequest w request s =
          let called := w.call { cwd := r.path, program := "gh", args := Hosting.requestArgs request } s
          let answer := (Hosting.printed (Hosting.requestArgs request) called.1).map Text.trim
          (answer, { called.2 with
            transcript := called.2.transcript ++ [.pullRequest r.address request answer] }) := by
        unfold openRequest Hosting.openRequest
        rw [hw]
        rfl
      rw [hopen]
      refine ⟨_, (Session.Leads.call _).trans ⟨rfl, .single ?_⟩, .gh rfl⟩
      simp [World.Moves, hw]
  | service branch ask =>
      have hopen : r.openRequest w request s =
          let asked := ask r.address request s.outside
          (asked.1, { s with
            outside := asked.2
            transcript := s.transcript ++ [.pullRequest r.address request asked.1] }) := by
        unfold openRequest Hosting.openRequest
        rw [hw]
        rfl
      rw [hopen]
      refine ⟨_, ⟨rfl, .single ?_⟩, .service⟩
      simp [World.Moves, hw]

end Repository

/-! ## Performing an operation -/

namespace Checkout

variable {w : World σ} {copy : Checkout}

/-- What an operation does is what is done when a working copy performs it. -/
theorem perform_sends (copy : Checkout) (op : Repository → Git σ Unit) {B : Behaviour Unit}
    (h : (op copy.repository).Sends w copy.current B) (s : Session σ) :
    ∃ t, s.Leads w t (copy.perform op s).2 ∧
      B t (copy.perform op s).1.1 (copy.perform op s).1.2.current := by
  rw [perform_eq]
  exact h { current := copy.current, session := s } rfl

theorem events_perform {op : Repository → Git σ Unit} (h : (op copy.repository).Mute) (s : Session σ) :
    (copy.perform op s).2.events = s.events := by
  rw [perform_eq]
  exact h { current := copy.current, session := s }

end Checkout

/-! ## Publishing -/

/-- The event that tells what came of publishing the repository at an address. -/
def PublishOutcome.event (address : String) : PublishOutcome → Event
  | .opened url => .pullRequestCreated address url
  | .alreadyOpen => .pullRequestAlreadyOpen address
  | .commitFailed fault => .commitFailed fault
  | .pushFailed fault => .pushFailed fault

namespace Campaign

variable {w : World σ} {c : Campaign} {copy : Checkout} {s : Session σ}

/-- Publishing a repository, and what comes of it. `b` is the branch that is remembered when it begins. -/
inductive Concludes (c : Campaign) (r : Repository) (b : Option Branch) :
    List Exchange → PublishOutcome → Prop
  | uncommitted {t f b'} (commit : r.Commits c.message b t (.error f) b') :
      Concludes c r b t (.commitFailed f)
  | unpushed {t₁ b' t₂ f b''} (commit : r.Commits c.message b t₁ (.ok ()) b')
      (push : r.Pushes b' t₂ (.error f) b'') : Concludes c r b (t₁ ++ t₂) (.pushFailed f)
  | opened {t₁ b' t₂ b'' t₃ url} (commit : r.Commits c.message b t₁ (.ok ()) b')
      (push : r.Pushes b' t₂ (.ok ()) b'') (request : r.Answers c.request t₃ (.ok url)) :
      Concludes c r b (t₁ ++ (t₂ ++ t₃)) (.opened url)
  | unopened {t₁ b' t₂ b'' t₃ cause} (commit : r.Commits c.message b t₁ (.ok ()) b')
      (push : r.Pushes b' t₂ (.ok ()) b'') (request : r.Answers c.request t₃ (.error cause)) :
      Concludes c r b (t₁ ++ (t₂ ++ t₃)) .alreadyOpen

/-- **Publishing a repository goes as far as it can, and is told of once.** -/
theorem publishOne_concludes (w : World σ) (c : Campaign) (copy : Checkout) (s : Session σ) :
    ∃ t, s.Leads w t (c.publishOne w copy s).2 ∧
      c.Concludes copy.repository copy.current t (c.publishOne w copy s).1.1 ∧
      (c.publishOne w copy s).2.events =
        s.events ++ [(c.publishOne w copy s).1.1.event copy.repository.address] := by
  obtain ⟨t₁, hleads₁, commit⟩ := copy.perform_sends (·.commit w c.message)
    (Repository.commit_sends c.message) s
  have hcopy₁ := Checkout.perform_gives copy (·.commit w c.message) s
  have hevents₁ : (copy.perform (·.commit w c.message) s).2.events = s.events :=
    Checkout.events_perform (Repository.commit_mute c.message) s
  simp only [publishOne, Session.bind_apply]
  rcases hcommit : copy.perform (·.commit w c.message) s with ⟨⟨committed, copy₁⟩, s₁⟩
  rw [hcommit] at hleads₁ commit hcopy₁ hevents₁
  cases committed with
  | error fault =>
      refine ⟨t₁, ⟨hleads₁.transcript, hleads₁.conversation⟩, .uncommitted commit, ?_⟩
      show s₁.events ++ [.commitFailed fault] = _
      rw [hevents₁]
      rfl
  | ok _ =>
      obtain ⟨t₂, hleads₂, push⟩ := copy₁.perform_sends (·.push w) Repository.push_sends s₁
      have hcopy₂ := Checkout.perform_gives copy₁ (·.push w) s₁
      have hevents₂ : (copy₁.perform (·.push w) s₁).2.events = s₁.events :=
        Checkout.events_perform Repository.push_mute s₁
      dsimp only at hleads₁ commit hcopy₁ hevents₁ ⊢
      simp only [Session.bind_apply]
      rcases hpush : copy₁.perform (·.push w) s₁ with ⟨⟨pushed, copy₂⟩, s₂⟩
      rw [hpush] at hleads₂ push hcopy₂ hevents₂
      dsimp only at hleads₂ push hcopy₂ hevents₂
      rw [hcopy₁] at push hcopy₂
      rw [hevents₁] at hevents₂
      have hleads := hleads₁.trans hleads₂
      cases pushed with
      | error fault =>
          refine ⟨t₁ ++ t₂, ⟨hleads.transcript, hleads.conversation⟩, .unpushed commit push, ?_⟩
          show s₂.events ++ [.pushFailed fault] = _
          rw [hevents₂]
          rfl
      | ok _ =>
          obtain ⟨t₃, hleads₃, request⟩ := copy₂.repository.openRequest_answers w c.request s₂
          have hevents₃ : (copy₂.repository.openRequest w c.request s₂).2.events = s.events := by
            rw [Repository.events_openRequest, hevents₂]
          rw [hcopy₂] at hleads₃ request hevents₃
          have hall := hleads₁.trans (hleads₂.trans hleads₃)
          refine ⟨t₁ ++ (t₂ ++ t₃), ?_⟩
          dsimp only
          rw [hcopy₂]
          simp only [Session.bind_apply]
          rcases hrequest : copy.repository.openRequest w c.request s₂ with ⟨answer, s₃⟩
          rw [hrequest] at request hevents₃ hall
          dsimp only at request hevents₃ hall
          cases answer with
          | ok url =>
              refine ⟨⟨hall.transcript, hall.conversation⟩, .opened commit push request, ?_⟩
              show s₃.events ++ [.pullRequestCreated copy.repository.address url] = _
              rw [hevents₃]
              rfl
          | error cause =>
              refine ⟨⟨hall.transcript, hall.conversation⟩, .unopened commit push request, ?_⟩
              show s₃.events ++ [.pullRequestAlreadyOpen copy.repository.address] = _
              rw [hevents₃]
              rfl

end Campaign

end CodeSweep
