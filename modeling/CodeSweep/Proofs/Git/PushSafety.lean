import CodeSweep.Proofs.Git.Commands
import CodeSweep.Proofs.Git.Operations

/-! # Pushing is safe

A push overwrites what the remote has, so it must never hit the default branch. Over every run of
operations, and whatever git and the hosting platform answer, every `git push` belongs to a call of
`push` that asked for the remote, the branch and the default branch first, and it is for that remote
and a branch other than the default branch; a call of `push` that does not come to that ends in a
fault (`push_safety`). -/

namespace CodeSweep

namespace Repository

variable {σ : Type} {w : World σ} {r : Repository} {c c' : Option Branch} {t : List Exchange}

/-- Whether a command pushes. -/
def pushes (args : List String) : Bool := args.head? == some "push"

/-- The remote that git listed first: the first line that was printed, without surrounding white
space, which is not all of it. -/
def NamesRemote (r : Repository) (t : List Exchange) (remote : String) : Prop :=
  ∃ o line lines, r.ran ["remote"] (.ok o) ∈ t ∧ o.success = true ∧ Text.lines o.stdout = line :: lines ∧
    Text.trim line = remote ∧ remote ≠ ""

/-- The branch that is checked out, as far as the repository can tell: the one it remembers, else the
one that git marked. -/
inductive Selected (r : Repository) (t : List Exchange) : Option Branch → Branch → Prop
  | known {b} : Selected r t (some b) b
  | listed {o b} (h : r.ran ["branch"] (.ok o) ∈ t) (ho : o.success = true)
      (hb : Branch.markedIn o.stdout = some b) : Selected r t none b

/-- The commands that come before a push: a listing of branches is among them only when no branch is
remembered. -/
def beforePush (c : Option Branch) : List (List String) :=
  [["remote"]] ++ (if c = none then [["branch"]] else []) ++ [["add", "."]]

/-- A push that is safe: the last of the exchanges pushes a branch that is selected to a remote that
was named, after another branch was reported to be the default branch and everything was staged. -/
inductive PushesSafely (r : Repository) (c : Option Branch) : List Exchange → Prop
  | intro {early remote b main staged reply} (hremote : r.NamesRemote early remote)
      (hselected : r.Selected early c b) (hmain : .defaultBranch r.address (.ok main) ∈ early)
      (honly : defaultBranches early = [main]) (hne : b.name ≠ main)
      (hstaged : r.ran ["add", "."] (.ok staged) ∈ early) (hsuccess : staged.success = true)
      (hcommands : gitCommands early = beforePush c) :
      PushesSafely r c (early ++ [r.ran (pushArgs remote b.name) reply])

/-! ## What a push needs -/

theorem firstRemote?_eq_some {stdout remote : String} (h : firstRemote? stdout = some remote) :
    ∃ line lines, Text.lines stdout = line :: lines ∧ Text.trim line = remote ∧ remote ≠ "" := by
  unfold firstRemote? at h
  split at h
  next => cases h
  next line lines hlines =>
    dsimp only at h
    split at h
    next => cases h
    next hne =>
      cases h
      exact ⟨line, lines, hlines, rfl, by simpa using hne⟩

theorem Selects.selected {b : Branch} (look : r.Selects c t (.ok (some b)) c') : r.Selected t c b := by
  cases look with
  | known => exact .known
  | listed ho hb => exact .listed (by simp) ho hb

theorem Selected.mono {b : Branch} {t' : List Exchange} (h : r.Selected t c b) (hsub : t ⊆ t') :
    r.Selected t' c b := by
  cases h with
  | known => exact .known
  | listed h ho hb => exact .listed (hsub h) ho hb

theorem Selects.gitCommands_eq {out : Except GitFault (Option Branch)}
    (look : r.Selects c t out c') : gitCommands t = if c = none then [["branch"]] else [] := by
  cases look <;> simp

theorem Asks.mem_of_ok {main : String} (ask : r.Asks c t (.ok main) c') :
    .defaultBranch r.address (.ok main) ∈ t := by
  cases ask
  simp

theorem not_pushes_before : ∀ args ∈ [["remote"], ["branch"], ["add", "."]], ¬ pushes args = true := by
  decide

/-- A push is safe, or there is none and the call fails. -/
theorem Pushes.safe {out : Except GitFault Unit} (push : r.Pushes c t out c') :
    r.PushesSafely c t ∨ (∀ args ∈ gitCommands t, ¬ pushes args = true) ∧ ∃ f, out = .error f := by
  have hquiet : gitCommands t ⊆ [["remote"], ["branch"], ["add", "."]] →
      ∀ args ∈ gitCommands t, ¬ pushes args = true :=
    fun hsub args hargs => not_pushes_before args (hsub hargs)
  cases push with
  | unnamed => exact .inr ⟨hquiet (by simp), _, rfl⟩
  | unknown _ look =>
      refine .inr ⟨hquiet ?_, _, rfl⟩
      have hlook := look.commands
      grind
  | missing _ look =>
      refine .inr ⟨hquiet ?_, _, rfl⟩
      have hlook := look.commands
      grind
  | unanswered _ _ look ask =>
      refine .inr ⟨hquiet ?_, _, rfl⟩
      have hlook := look.commands
      have hask := ask.commands
      grind
  | refused _ _ look ask =>
      refine .inr ⟨hquiet ?_, _, rfl⟩
      have hlook := look.commands
      have hask := ask.commands
      grind
  | unstaged _ _ look ask =>
      refine .inr ⟨hquiet ?_, _, rfl⟩
      have hlook := look.commands
      have hask := ask.commands
      grind
  | @sent o remote t₁ b c' t₂ main o' t₃ out ho hr look ask hne ho' push =>
      obtain ⟨line, lines, hlines, htrim, hremote⟩ := firstRemote?_eq_some hr
      obtain ⟨reply, rfl⟩ : ∃ reply, t₃ = [r.ran (pushArgs remote b.name) reply] := by
        cases push <;> exact ⟨_, rfl⟩
      -- the push is the last exchange, and all that it needs came before it
      have hearly : [r.ran ["remote"] (.ok o)] ++ (t₁ ++ (t₂ ++ ([r.ran ["add", "."] (.ok o')] ++
          [r.ran (pushArgs remote b.name) reply]))) =
          ([r.ran ["remote"] (.ok o)] ++ t₁ ++ t₂ ++ [r.ran ["add", "."] (.ok o')]) ++
            [r.ran (pushArgs remote b.name) reply] := by
        simp
      rw [hearly]
      refine .inl (.intro ⟨o, line, lines, by simp, ho, hlines, htrim, hremote⟩
        (look.selected.mono ?_) ?_ ?_ hne (by simp) ho' ?_)
      · simp
      · simp [ask.mem_of_ok]
      · simp [look.silent.main, ask.defaultBranches_eq]
      · simp [look.gitCommands_eq, ask.commands, beforePush]

/-! ## Nothing else pushes -/

theorem not_pushes_of_prepare {working : String} {known? : Option Survey} :
    ∀ args ∈ prepareCommands working known?, ¬ pushes args = true := by
  cases known? <;>
    simp [prepareCommands, resetCommands, updateCommands, calmCommands, surveyCommands,
      checkoutCommands, cleanCommands, rebaseCommands, recreateCommands, pushes]

theorem RunsOnly.not_pushes {commands : Option Survey → List (List String)} (h : RunsOnly commands t)
    (working : String) (hsub : ∀ known?, commands known? ⊆ prepareCommands working known?) :
    ∀ args ∈ gitCommands t, ¬ pushes args = true := by
  obtain ⟨known?, -, hcommands⟩ := h
  exact fun args hargs => not_pushes_of_prepare args (hsub known? (hcommands hargs))

/-- No operation but `push` pushes. -/
theorem not_pushes_of_does {op : Operation} {out : Except GitFault Unit}
    (h : op.Does r c t out c') (hop : op ≠ .push) : ∀ args ∈ gitCommands t, ¬ pushes args = true := by
  cases op with
  | clone => cases h <;> simp [pushes]
  | selected =>
      obtain ⟨found, look, -⟩ := h
      intro args hargs
      exact not_pushes_before args (by simp [List.mem_singleton.mp (look.commands hargs)])
  | checkout name fresh =>
      obtain ⟨moved, move, -⟩ := h
      intro args hargs
      have hcheckout : ∀ args ∈ checkoutCommands name, ¬ pushes args = true := by
        simp [checkoutCommands, pushes]
      exact hcheckout args (move.commands hargs)
  | delete name => cases h <;> simp [pushes]
  | clean => cases h <;> simp [pushes]
  | reset working =>
      exact (ResetsTo.commands h).not_pushes working fun _ => List.subset_append_right _ _
  | update working =>
      refine (Updates.commands h).not_pushes working fun _ => ?_
      exact List.subset_append_of_subset_right _ (List.subset_append_right _ _)
  | prepare working => exact (Prepares.commands h).not_pushes working fun _ => List.Subset.refl _
  | commit message => cases h <;> simp [pushes]
  | push => exact absurd rfl hop

/-! ## Runs -/

/-- In a call, whatever pushes is a safe push of `push`, and `push` pushes or fails. -/
structure PushSafe (r : Repository) (call : Call) : Prop where
  safe : ∀ args ∈ gitCommands call.said, pushes args = true →
    call.op = .push ∧ r.PushesSafely call.remembered call.said
  pushed_or_failed : call.op = .push →
    (∃ args ∈ gitCommands call.said, pushes args = true) ∨ ∃ f, call.outcome = .error f

theorem PushesSafely.pushes (h : r.PushesSafely c t) : ∃ args ∈ gitCommands t, pushes args = true := by
  cases h with
  | @intro early remote b =>
      exact ⟨pushArgs remote b.name, by simp, rfl⟩

theorem call_pushSafe (op : Operation) (d : Desk σ) : r.PushSafe (r.call w op d) := by
  have hdoes := (call_does (w := w) (r := r) op d).2
  by_cases hop : op = .push
  · subst hop
    rcases Pushes.safe hdoes with hsafe | ⟨hquiet, hfault⟩
    · exact ⟨fun _ _ _ => ⟨rfl, hsafe⟩, fun _ => .inl hsafe.pushes⟩
    · exact ⟨fun args hargs hpush => absurd hpush (hquiet args hargs), fun _ => .inr hfault⟩
  · have hquiet := not_pushes_of_does hdoes hop
    exact ⟨fun args hargs hpush => absurd hpush (hquiet args hargs), fun h => absurd h hop⟩

/-- **Pushing is safe over whole runs.** The calls of a run are all that is said in it, and in each of
them every push is a safe push of `push`; where `push` does not push, it fails. -/
theorem push_safety (w : World σ) (r : Repository) (ops : List Operation) (d : Desk σ) :
    (r.runAll w ops d).session.transcript =
        d.session.transcript ++ (r.calls w ops d).flatMap (·.said) ∧
      (r.calls w ops d).map (·.op) = ops ∧ ∀ call ∈ r.calls w ops d, r.PushSafe call :=
  ⟨transcript_runAll ops d, calls_op ops d, calls_forall call_pushSafe ops d⟩

end Repository

end CodeSweep
