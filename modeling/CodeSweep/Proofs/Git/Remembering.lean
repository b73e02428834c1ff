import CodeSweep.Proofs.Git.Operations
import CodeSweep.Proofs.Git.Reconcile

/-! # The remembered branch is never stale

A repository remembers the branch that is checked out from one operation to the next, and both a push
and a checkout that finds nothing to do rely on it. Over a working copy that behaves, every operation
leaves it coherent, however it ends (`Operation.Does.coherent`): an operation that moves HEAD remembers
where it went, or forgets. By induction it is coherent after every operation of a run
(`runAll_coherent`).

Where a listing shows nothing for a HEAD that is on no branch, the remembered branch is therefore the
one that HEAD is on (`runAll_remembers_head`). -/

namespace CodeSweep

open Branch (Printable)

namespace Repository

variable {r : Repository} {notice : String → Prop} {g : WorkingCopy} {c c' : Option Branch}
  {t : List Exchange} {working : String}

/-! ## Operations that move HEAD -/

theorem Recreates.coherent {main base : String} {out : Except GitFault Unit}
    (hn : ∀ text, notice text → Printable text) (anew : r.Recreates working main base c t out c')
    (ht : g.Explains r.path notice t) (hc : g.Coherent notice c) :
    (g.replay r.path t).Coherent notice c' := by
  cases anew with
  | refused => exact hc
  | attached _ h =>
      rw [WorkingCopy.replay_cons, WorkingCopy.next_ran_failed h]
      exact hc
  | lost => exact WorkingCopy.coherent_none
  -- HEAD went to no branch and back again; what is remembered is looked up after that
  | created _ _ _ look =>
      rw [WorkingCopy.explains_append] at ht
      rw [WorkingCopy.replay_append, look.replay_eq]
      exact look.coherent hn ht.2 WorkingCopy.coherent_none

theorem Updates.coherent {out : Except GitFault Unit} (hn : ∀ text, notice text → Printable text)
    (update : r.Updates working c t out c') (ht : g.Explains r.path notice t)
    (hc : g.Coherent notice c) : (g.replay r.path t).Coherent notice c' := by
  cases update with
  | unknown survey =>
      rw [survey.replay_eq]
      exact hc
  | stuck survey move =>
      rw [WorkingCopy.explains_append, survey.replay_eq] at ht
      rw [WorkingCopy.replay_append, survey.replay_eq]
      exact move.coherent hn ht.2 hc
  | unstarted survey move rebase =>
      simp only [WorkingCopy.explains_append, survey.replay_eq] at ht
      simp only [WorkingCopy.replay_append, survey.replay_eq, rebase.replay_eq]
      exact move.coherent hn ht.2.1 hc
  | rebased survey move rebase =>
      simp only [WorkingCopy.explains_append, survey.replay_eq] at ht
      simp only [WorkingCopy.replay_append, survey.replay_eq, rebase.replay_eq]
      exact move.coherent hn ht.2.1 hc
  | recreated survey move rebase _ anew =>
      simp only [WorkingCopy.explains_append, survey.replay_eq, rebase.replay_eq] at ht
      simp only [WorkingCopy.replay_append, survey.replay_eq, rebase.replay_eq]
      exact anew.coherent hn ht.2.2.2 (move.coherent hn ht.2.1 hc)

theorem ResetsTo.coherent {out : Except GitFault Unit} (hn : ∀ text, notice text → Printable text)
    (reset : r.ResetsTo working c t out c') (ht : g.Explains r.path notice t)
    (hc : g.Coherent notice c) : (g.replay r.path t).Coherent notice c' := by
  cases reset with
  | dirty clean =>
      rw [clean.replay_eq]
      exact hc
  | cleaned clean update =>
      rw [WorkingCopy.explains_append, clean.replay_eq] at ht
      rw [WorkingCopy.replay_append, clean.replay_eq]
      exact update.coherent hn ht.2 hc

theorem Prepares.coherent {out : Except GitFault Unit} (hn : ∀ text, notice text → Printable text)
    (prepare : r.Prepares working c t out c') (ht : g.Explains r.path notice t)
    (hc : g.Coherent notice c) : (g.replay r.path t).Coherent notice c' := by
  cases prepare with
  | stuck move => exact move.coherent hn ht hc
  | moved move reset =>
      rw [WorkingCopy.explains_append] at ht
      rw [WorkingCopy.replay_append]
      exact reset.coherent hn ht.2 (move.coherent hn ht.1 hc)

/-! ## Operations that leave HEAD where it is -/

theorem Clones.replay_eq {dir : Path} {out : Except GitFault Unit} (clone : r.Clones c t out c') :
    g.replay dir t = g := by
  have hnext : ∀ cwd reply, g.next dir (.command
      { cwd, program := "git", args := ["clone", r.address, r.name] } reply) = g := by
    intro cwd reply
    unfold WorkingCopy.next WorkingCopy.succeeded?
    repeat' split
    all_goals grind [WorkingCopy.after?]
  cases clone with
  | present => rfl
  | homeless => rfl
  | cloned => rw [WorkingCopy.replay_cons, hnext, WorkingCopy.replay_nil]
  | failed => rw [WorkingCopy.replay_cons, hnext, WorkingCopy.replay_nil]

theorem Commits.replay_eq {message : String} {out : Except GitFault Unit}
    (commit : r.Commits message c t out c') : g.replay r.path t = g := by
  have hnext : ∀ reply, g.next r.path (r.ran ["commit", "-m", message, "--no-verify"] reply) = g :=
    fun _ => WorkingCopy.next_ran_of_after? rfl
  cases commit <;> simp [hnext]

/-- What is remembered is coherent with where HEAD is, and with nothing else. -/
theorem coherent_of_head_eq {g' : WorkingCopy} (h : g'.head = g.head) (hc : g.Coherent notice c) :
    g'.Coherent notice c := by
  unfold WorkingCopy.Coherent
  rw [h]
  exact hc

/-- A push changes the remote, and not where HEAD is. -/
theorem head_next_push {remote branch : String} {reply : Reply} :
    (g.next r.path (r.ran (pushArgs remote branch) reply)).head = g.head := by
  cases hs : Reply.succeeded reply with
  | false => rw [WorkingCopy.next_ran_failed hs]
  | true =>
      match reply, hs with
      | .ok o, ho =>
          rw [WorkingCopy.next_ran_ok ho, pushArgs, WorkingCopy.after?]
          split <;> rfl

theorem Pushes.head_eq {out : Except GitFault Unit} (push : r.Pushes c t out c') :
    (g.replay r.path t).head = g.head := by
  cases push with
  | unnamed => simp
  | unknown _ look => simp [look.replay_eq]
  | missing _ look => simp [look.replay_eq]
  | unanswered _ _ look ask => simp [look.replay_eq, ask.replay_eq]
  | refused _ _ look ask => simp [look.replay_eq, ask.replay_eq]
  | unstaged _ _ look ask => simp [look.replay_eq, ask.replay_eq]
  | sent _ _ look ask _ _ push =>
      cases push <;> simp [look.replay_eq, ask.replay_eq, head_next_push]

theorem Pushes.coherent {out : Except GitFault Unit} (hn : ∀ text, notice text → Printable text)
    (push : r.Pushes c t out c') (ht : g.Explains r.path notice t) (hc : g.Coherent notice c) :
    (g.replay r.path t).Coherent notice c' := by
  -- a push looks for the branch that is checked out, and leaves HEAD alone
  obtain rfl | ⟨o, t₁, found, rest, rfl, look⟩ : c' = c ∨ ∃ o t₁ found rest,
      t = [r.ran ["remote"] (.ok o)] ++ (t₁ ++ rest) ∧ r.Selects c t₁ found c' := by
    cases push with
    | unnamed => exact .inl rfl
    | @unknown o t₁ _ f _ _ look => exact .inr ⟨o, t₁, .error f, [], by simp, look⟩
    | @missing o t₁ b? _ _ _ look => exact .inr ⟨o, t₁, .ok b?, [], by simp, look⟩
    | unanswered _ _ look => exact .inr ⟨_, _, _, _, rfl, look⟩
    | refused _ _ look => exact .inr ⟨_, _, _, _, rfl, look⟩
    | unstaged _ _ look => exact .inr ⟨_, _, _, _, rfl, look⟩
    | sent _ _ look => exact .inr ⟨_, _, _, _, rfl, look⟩
  · exact coherent_of_head_eq push.head_eq hc
  · simp only [WorkingCopy.explains_append, WorkingCopy.replay_cons, WorkingCopy.next_remote,
      WorkingCopy.replay_nil] at ht
    exact coherent_of_head_eq push.head_eq (look.coherent hn ht.2.1 hc)

end Repository

/-! ## Runs -/

open WorkingCopy (web desk)

variable {σ : Type} {w : World σ} {r : Repository} {notice : String → Prop} {copy : σ → WorkingCopy}

/-- **Whatever an operation does, it leaves the remembered branch coherent.** -/
theorem Operation.Does.coherent {op : Operation} {g : WorkingCopy} {c c' : Option Branch}
    {t : List Exchange} {out : Except GitFault Unit} (hn : ∀ text, notice text → Printable text)
    (h : op.Does r c t out c') (ht : g.Explains r.path notice t) (hc : g.Coherent notice c) :
    (g.replay r.path t).Coherent notice c' := by
  cases op with
  | clone =>
      rw [Repository.Clones.replay_eq h]
      cases h <;> exact hc
  | selected =>
      obtain ⟨found, look, -⟩ := h
      rw [look.replay_eq]
      exact look.coherent hn ht hc
  | checkout name fresh =>
      obtain ⟨moved, move, -⟩ := h
      exact move.coherent hn ht hc
  -- whether or not the branch is gone, nothing is remembered
  | delete name => cases h <;> exact WorkingCopy.coherent_none
  | clean =>
      rw [Repository.Resets.replay_eq h]
      cases h <;> exact hc
  | reset working => exact Repository.ResetsTo.coherent hn h ht hc
  | update working => exact Repository.Updates.coherent hn h ht hc
  | prepare working => exact Repository.Prepares.coherent hn h ht hc
  | commit message =>
      rw [Repository.Commits.replay_eq h]
      cases h <;> exact hc
  | push => exact Repository.Pushes.coherent hn h ht hc

namespace Repository

theorem perform_coherent (hn : ∀ text, notice text → Printable text)
    (hw : w.Keeps r.path notice copy) (op : Operation) (d : Desk σ)
    (hd : (copy d.session.outside).Coherent notice d.current) :
    (copy ((op.perform w r).finish d).2.session.outside).Coherent notice
      ((op.perform w r).finish d).2.current := by
  obtain ⟨t, hleads, hdoes⟩ := op.perform_sends (w := w) (r := r) d rfl
  rw [hw.replay_eq hleads.conversation]
  exact hdoes.coherent hn (hw.explains hleads.conversation) hd

/-- What is remembered stays coherent over a run, whichever operations fail. -/
theorem runAll_coherent (hn : ∀ text, notice text → Printable text) (hw : w.Keeps r.path notice copy)
    (ops : List Operation) (d : Desk σ) (hd : (copy d.session.outside).Coherent notice d.current) :
    (copy (r.runAll w ops d).session.outside).Coherent notice (r.runAll w ops d).current := by
  induction ops generalizing d with
  | nil => exact hd
  | cons op ops ih => exact ih _ (perform_coherent hn hw op d hd)

/-- **The remembered branch is the one that HEAD is on**, after every operation of a run that begins
with nothing remembered, in a working copy whose listings mark the branch that HEAD is on and nothing
else. -/
theorem runAll_remembers_head (hw : w.Keeps r.path (fun _ => False) copy) (ops : List Operation)
    (d : Desk σ) (hd : d.current = none) :
    ∀ done, done <+: ops → ∀ b ∈ (r.runAll w done d).current,
      (copy (r.runAll w done d).session.outside).head = some b.name := by
  intro done _ b hb
  have hbegin : (copy d.session.outside).Coherent (fun _ => False) d.current := by
    rw [hd]
    exact WorkingCopy.coherent_none
  rcases runAll_coherent (fun _ => False.elim) hw done d hbegin b hb with hhead | ⟨-, hnone⟩
  · exact hhead
  · exact hnone.elim

end Repository

namespace WorkingCopy

/-- An output, with a listing that shows nothing where HEAD is on no branch. -/
def relist (g : WorkingCopy) (args : List String) (o : Output) : Output :=
  if args = ["branch"] then { o with stdout := Branch.printLocal g.branches } else o

/-- The simulated world with such listings. -/
def unmarked (dir : Path) (remote main : String) (plan : Nat → Option Failure) :
    World (Nat × WorkingCopy) where
  run command state :=
    let (reply, rest) := simulate dir remote plan command state
    (reply.map (state.2.2.relist command.args), rest)
  hosting := (world dir remote main plan).hosting

variable {dir : Path} {remote main : String} {plan : Nat → Option Failure} {g : WorkingCopy}

theorem succeeded?_relist (command : Command) (reply : Reply) :
    succeeded? dir (.command command (reply.map (g.relist command.args))) =
      (succeeded? dir (.command command reply)).map fun (args, o) => (args, g.relist args o) := by
  cases reply with
  | error cause => rfl
  | ok o =>
      have hsuccess : (g.relist command.args o).success = o.success := by
        unfold relist
        split <;> rfl
      simp only [succeeded?, Except.map, hsuccess]
      split <;> rfl

theorem Prints.relist {args : List String} {o : Output} (h : g.Prints (fun _ => True) args o.stdout) :
    g.Prints (fun _ => False) args (g.relist args o).stdout := by
  unfold WorkingCopy.relist
  split
  next hargs =>
    subst hargs
    exact .inl rfl
  next hargs =>
    unfold Prints at h ⊢
    split
    · exact absurd rfl hargs
    · exact h
    · trivial

/-- Only what is printed differs from the simulated world, so the same happens in it. -/
theorem unmarked_keeps : (unmarked dir remote main plan).Keeps dir (fun _ => False) (·.2) := by
  have hworld : (world dir remote main plan).Keeps dir (fun _ => True) (·.2) := world_keeps trivial
  have step : ∀ e s s', (unmarked dir remote main plan).Moves e s s' →
      s.2.Allows dir (fun _ => False) e ∧ s'.2 = s.2.next dir e := by
    intro e s s' hm
    cases e with
    | command c reply =>
        obtain ⟨disk, disk', hrun⟩ := hm
        rcases hsim : simulate dir remote plan c (disk, s) with ⟨ran, disk₁, s₁⟩
        simp only [unmarked, hsim, Prod.mk.injEq] at hrun
        obtain ⟨rfl, rfl, rfl⟩ := hrun
        have hmoves : (world dir remote main plan).Moves (.command c ran) s s₁ := ⟨disk, disk₁, hsim⟩
        constructor
        · intro args o hs
          rw [succeeded?_relist, Option.map_eq_some_iff] at hs
          obtain ⟨⟨args', o'⟩, hs', heq⟩ := hs
          obtain ⟨rfl, rfl⟩ := Prod.mk.inj heq
          obtain ⟨hafter, hprints⟩ := hworld.allows _ _ _ hmoves _ _ hs'
          exact ⟨hafter, hprints.relist⟩
        · rw [hworld.follows _ _ _ hmoves, next, next, succeeded?_relist]
          cases succeeded? dir (.command c ran) <;> rfl
    -- the hosting platform is the same
    | defaultBranch address answer =>
        exact ⟨by simp [Allows, succeeded?], hworld.follows (.defaultBranch address answer) s s' hm⟩
    | pullRequest address request answer =>
        exact ⟨by simp [Allows, succeeded?], hworld.follows (.pullRequest address request answer) s s' hm⟩
  exact ⟨fun e s s' hm => (step e s s' hm).1, fun e s s' hm => (step e s s' hm).2⟩

end WorkingCopy

namespace Repository

open WorkingCopy (unmarked unmarked_keeps)

/-- Operations that take HEAD off its branch and back, push, move on and delete what was pushed. -/
def errands : List Operation :=
  [.prepare "codemods/x", .push, .checkout "main" false, .delete "codemods/x"]

theorem runAll_remembers_head_on_errands :
    (web.runAll (unmarked web.path "origin" "main" conflict) (errands.take 2) (desk strayed)).current =
        some { name := "codemods/x", selected := true } ∧
      ∀ done, done <+: errands → ∀ b ∈
        (web.runAll (unmarked web.path "origin" "main" conflict) done (desk strayed)).current,
        (web.runAll (unmarked web.path "origin" "main" conflict) done
          (desk strayed)).session.outside.2.head = some b.name :=
  ⟨rfl, runAll_remembers_head unmarked_keeps errands (desk strayed) rfl⟩

end Repository

end CodeSweep
