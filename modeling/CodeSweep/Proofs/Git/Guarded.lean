import CodeSweep.Proofs.Git.Commands

/-! # Destructive commands are guarded

Preparing a branch runs commands that lose work: it resets, deletes, and gives up on rebases. Whatever
git and the hosting platform answer (`destructive_commands_guarded`):

* nothing is reset before the checkout of the working branch came back with success;
* only the working branch is deleted, only where it is not the default branch, and directly after HEAD
  was detached at the default branch of the remote;
* a default branch other than the working branch is neither checked out nor made nor deleted, and a
  branch is made anew from the default branch of the remote only;
* a rebase that fails is given up at once. -/

namespace CodeSweep

namespace Repository

variable {σ : Type} {w : World σ} {r : Repository} {c c' : Option Branch} {t t' early : List Exchange}
  {working : String}

/-! ## What the guards say -/

/-- Whether a command deletes a branch. -/
def deletes : List String → Bool
  | ["branch", "-D", _] => true
  | _ => false

/-- Whether a command checks out, makes or deletes the local branch `name`. -/
def touches (name : String) : List String → Bool
  | ["checkout", b] => b == name
  | "checkout" :: "-b" :: b :: _ => b == name
  | ["branch", "-D", b] => b == name
  | _ => false

/-- Whether a command starts a rebase. -/
def startsRebase (args : List String) : Bool :=
  args.head? == some "rebase" && args != ["rebase", "--abort"]

/-- A deletion is of the working branch, which is not the default branch, and comes directly after
HEAD was detached at the default branch of the remote. -/
def DeletesDetached (r : Repository) (working : String) (before : List Exchange) (e : Exchange) : Prop :=
  ∀ args, e.git? = some args → deletes args = true →
    args = ["branch", "-D", working] ∧ ∃ known o, Learned known before ∧
      working ≠ known.main ∧ o.success = true ∧
      before.getLast? = some (r.ran ["checkout", "--detach", known.base] (.ok o))

/-- A rebase that fails is given up at once. -/
def AbortsRebase (r : Repository) (e : Exchange) (after : List Exchange) : Prop :=
  ∀ args, e.git? = some args → startsRebase args = true →
    ∀ o, e = r.ran args (.ok o) → o.success = false →
      ∃ reply, after.head? = some (r.ran ["rebase", "--abort"] reply)

/-- Every rebase that fails is given up at once. -/
def AbortsRebases (r : Repository) (t : List Exchange) : Prop :=
  Throughout (fun _ e after => r.AbortsRebase e after) t

/-- The guards of all commands that may lose work. -/
structure Guarded (r : Repository) (working : String) (t : List Exchange) : Prop where
  deletes : Throughout (fun before e _ => r.DeletesDetached working before e) t
  spares : ∀ main ∈ defaultBranches t, working ≠ main →
    ∀ args ∈ gitCommands t, touches main args = false
  starts : ∀ name start, ["checkout", "-b", name, start] ∈ gitCommands t →
    ∃ known, Learned known t ∧ start = known.base
  aborts : r.AbortsRebases t

/-! ## Deletions -/

theorem DeletesDetached.append {before : List Exchange} {e : Exchange} (hsilent : Silent early)
    (h : r.DeletesDetached working before e) : r.DeletesDetached working (early ++ before) e := by
  intro args hargs hdeletes
  obtain ⟨he, known, o, hlearned, hne, ho, hlast⟩ := h args hargs hdeletes
  refine ⟨he, known, o, hsilent.append_learned hlearned, hne, ho, ?_⟩
  rw [List.getLast?_append, hlast, Option.some_or]

theorem deletesDetached_of_ran {before : List Exchange} {args : List String} {reply : Reply}
    (h : deletes args = false) : r.DeletesDetached working before (r.ran args reply) := by
  intro args' hargs hdeletes
  cases Exchange.git?_ran.symm.trans hargs
  rw [h] at hdeletes
  cases hdeletes

/-- Once the default branch and the remote are known, making anew deletes as it should. -/
theorem Recreates.deletesDetached {known : Survey} {out : Except GitFault Unit}
    (anew : r.Recreates working known.main known.base c t out c') (hlearned : Learned known early) :
    Throughout (fun before e _ => r.DeletesDetached working (early ++ before) e) t := by
  -- the second command: what precedes it is the first one, which succeeded
  have hdelete : ∀ (o : Output) deleted, working ≠ known.main → o.success = true →
      r.DeletesDetached working (early ++ [r.ran ["checkout", "--detach", known.base] (.ok o)])
        (r.ran ["branch", "-D", working] deleted) := by
    intro o deleted hne ho args hargs _
    have hsilent : Silent [r.ran ["checkout", "--detach", known.base] (.ok o)] := by
      constructor <;> simp
    cases Exchange.git?_ran.symm.trans hargs
    exact ⟨rfl, known, o, hlearned.append_silent hsilent, hne, ho, by simp⟩
  cases anew with
  | refused => exact throughout_nil
  | attached =>
      rw [throughout_cons]
      exact ⟨deletesDetached_of_ran rfl, throughout_nil⟩
  | lost hne ho =>
      simp only [throughout_cons, throughout_nil, and_true]
      exact ⟨deletesDetached_of_ran rfl, hdelete _ _ hne ho, deletesDetached_of_ran rfl⟩
  | created hne ho _ look =>
      have hlook : ∀ args ∈ [["branch"]], ¬ deletes args = true := by decide
      rw [throughout_append]
      simp only [throughout_cons, throughout_nil, and_true]
      refine ⟨⟨deletesDetached_of_ran rfl, hdelete _ _ hne ho, deletesDetached_of_ran rfl⟩, ?_⟩
      exact throughout_of_commands fun args hargs => hlook args (look.commands hargs)

theorem Updates.deletesDetached {out : Except GitFault Unit} (update : r.Updates working c t out c') :
    Throughout (fun before e _ => r.DeletesDetached working before e) t := by
  have hcalm : ∀ known?, ∀ args ∈ calmCommands working known?, ¬ deletes args = true := by
    intro known?
    cases known? <;> simp [calmCommands, surveyCommands, checkoutCommands, rebaseCommands, deletes]
  rcases update.calm_or_anew with ⟨known?, -, hsub⟩ |
    ⟨t₁, known, t₂, b, c₁, t₃, rebased, t₄, rfl, survey, move, rebase, -, anew⟩
  · exact throughout_of_commands fun args hargs => hcalm known? args (hsub hargs)
  · have hsub := calm_of_rebase survey move rebase
    have hlearned := learned_of_rebase survey move rebase
    exact throughout_append.mpr
      ⟨throughout_of_commands fun args hargs => hcalm (some known) args (hsub hargs),
        anew.deletesDetached hlearned⟩

theorem Prepares.deletesDetached {out : Except GitFault Unit}
    (prepare : r.Prepares working c t out c') :
    Throughout (fun before e _ => r.DeletesDetached working before e) t := by
  have hearly : ∀ args ∈ checkoutCommands working ++ cleanCommands, ¬ deletes args = true := by
    simp [checkoutCommands, cleanCommands, deletes]
  cases prepare with
  | stuck move =>
      exact throughout_of_commands fun args hargs =>
        hearly args (List.mem_append_left _ (move.commands hargs))
  | moved move reset =>
      cases reset with
      | dirty clean =>
          refine throughout_of_commands fun args hargs => hearly args ?_
          have hmove := move.commands
          have hclean := clean.commands
          grind
      | cleaned clean update =>
          rw [← List.append_assoc]
          refine throughout_append.mpr ⟨throughout_of_commands fun args hargs => hearly args ?_, ?_⟩
          · have hmove := move.commands
            have hclean := clean.commands
            grind
          · intro before e after hsplit
            exact (update.deletesDetached before e after hsplit).append (move.silent.append clean.silent)

/-! ## Rebases -/

theorem AbortsRebase.append {e : Exchange} {after : List Exchange} (h : r.AbortsRebase e after) :
    r.AbortsRebase e (after ++ t) := by
  intro args hargs hstarts o he ho
  obtain ⟨reply, hhead⟩ := h args hargs hstarts o he ho
  exact ⟨reply, by rw [List.head?_append, hhead, Option.some_or]⟩

theorem AbortsRebases.append (h : r.AbortsRebases t) (h' : r.AbortsRebases t') :
    r.AbortsRebases (t ++ t') :=
  throughout_append.mpr ⟨fun before e after hsplit => (h before e after hsplit).append, h'⟩

/-- Where no rebase is started, none has to be given up. -/
theorem aborts_of_subset {commands : List (List String)} (h : gitCommands t ⊆ commands)
    (hcommands : ∀ args ∈ commands, ¬ startsRebase args = true) : r.AbortsRebases t :=
  throughout_of_commands fun args hargs => hcommands args (h hargs)

theorem Surveys.aborts {out : Except GitFault Survey} (survey : r.Surveys working c t out c') :
    r.AbortsRebases t :=
  aborts_of_subset survey.commands (by decide)

theorem ChecksOut.aborts {out : Except GitFault Branch} (move : r.ChecksOut working false c t out c') :
    r.AbortsRebases t :=
  aborts_of_subset move.commands (by simp [checkoutCommands, startsRebase])

theorem Resets.aborts {out : Except GitFault Unit} (clean : r.Resets c t out c') : r.AbortsRebases t :=
  aborts_of_subset clean.commands (by decide)

theorem Recreates.aborts {main base : String} {out : Except GitFault Unit}
    (anew : r.Recreates working main base c t out c') : r.AbortsRebases t :=
  aborts_of_subset anew.commands (by simp [recreateCommands, startsRebase])

theorem abortsRebase_of_ran {args : List String} {reply : Reply} {after : List Exchange}
    (h : Reply.succeeded reply = true ∨ (∃ cause, reply = .error cause) ∨ startsRebase args = false) :
    r.AbortsRebase (r.ran args reply) after := by
  intro args' hargs hstarts o he ho
  cases Exchange.git?_ran.symm.trans hargs
  obtain ⟨-, rfl⟩ := ran_inj.mp he
  rcases h with hsucceeded | ⟨cause, hcause⟩ | hnot
  · rw [Reply.succeeded_ok, ho] at hsucceeded
    cases hsucceeded
  · cases hcause
  · rw [hnot] at hstarts
    cases hstarts

theorem Rebases.aborts {base : String} {out : Except GitFault Bool}
    (rebase : r.Rebases base c t out c') : r.AbortsRebases t := by
  unfold AbortsRebases
  cases rebase with
  | unstarted =>
      simp only [throughout_cons, throughout_nil, and_true]
      exact abortsRebase_of_ran (.inr (.inl ⟨_, rfl⟩))
  | clean ho =>
      simp only [throughout_cons, throughout_nil, and_true]
      exact abortsRebase_of_ran (.inl ho)
  | @aborted _ reply _ =>
      simp only [throughout_cons, throughout_nil, and_true]
      -- the next command gives it up; that one starts no rebase itself
      refine ⟨fun _ _ _ _ _ _ => ⟨reply, rfl⟩, ?_⟩
      exact abortsRebase_of_ran (.inr (.inr (by decide)))

theorem Updates.aborts {out : Except GitFault Unit} (update : r.Updates working c t out c') :
    r.AbortsRebases t := by
  cases update with
  | unknown survey => exact survey.aborts
  | stuck survey move => exact survey.aborts.append move.aborts
  | unstarted survey move rebase => exact survey.aborts.append (move.aborts.append rebase.aborts)
  | rebased survey move rebase => exact survey.aborts.append (move.aborts.append rebase.aborts)
  | recreated survey move rebase _ anew =>
      exact survey.aborts.append (move.aborts.append (rebase.aborts.append anew.aborts))

theorem Prepares.aborts {out : Except GitFault Unit} (prepare : r.Prepares working c t out c') :
    r.AbortsRebases t := by
  cases prepare with
  | stuck move => exact move.aborts
  | moved move reset =>
      cases reset with
      | dirty clean => exact move.aborts.append clean.aborts
      | cleaned clean update => exact move.aborts.append (clean.aborts.append update.aborts)

/-! ## Branches that are touched -/

/-- Of all branches only the working branch is touched. -/
theorem touches_of_prepare {name : String} {known? : Option Survey} :
    ∀ args ∈ prepareCommands working known?, touches name args = true → working = name := by
  cases known? <;>
    simp [prepareCommands, resetCommands, updateCommands, calmCommands, surveyCommands,
      checkoutCommands, cleanCommands, rebaseCommands, recreateCommands, touches]

/-- A start is given only where a branch is made anew. -/
theorem start_of_prepare {name start : String} {known? : Option Survey}
    (h : ["checkout", "-b", name, start] ∈ prepareCommands working known?) :
    ∃ known, known? = some known ∧ start = known.base := by
  cases known? with
  | none =>
      simp [prepareCommands, resetCommands, updateCommands, surveyCommands, checkoutCommands,
        cleanCommands] at h
  | some known =>
      refine ⟨known, rfl, ?_⟩
      simp [prepareCommands, resetCommands, updateCommands, calmCommands, surveyCommands,
        checkoutCommands, cleanCommands, rebaseCommands, recreateCommands] at h
      exact h.2

theorem Prepares.guarded {out : Except GitFault Unit} (prepare : r.Prepares working c t out c') :
    r.Guarded working t := by
  obtain ⟨known?, hknown, hcommands⟩ := prepare.commands
  refine ⟨prepare.deletesDetached, ?_, ?_, prepare.aborts⟩
  · intro main _ hne args hargs
    rw [Bool.eq_false_iff]
    exact fun htouches => hne (touches_of_prepare args (hcommands hargs) htouches)
  · intro name start hstart
    obtain ⟨known, rfl, hbase⟩ := start_of_prepare (hcommands hstart)
    exact ⟨known, hknown known rfl, hbase⟩

/-- **Destructive commands are guarded.** What is said while preparing is what is said by the checkout
of the working branch, which resets nothing, and what comes after it, which is nothing unless the
checkout came back with success; and all of it is guarded. -/
theorem destructive_commands_guarded (w : World σ) (r : Repository) (working : String) (d : Desk σ) :
    ∃ t₁ t₂, ((r.checkout w working false).finish d).2.session.transcript =
        d.session.transcript ++ t₁ ∧
      ((r.prepare w working).finish d).2.session.transcript = d.session.transcript ++ (t₁ ++ t₂) ∧
      ["reset", "--hard"] ∉ gitCommands t₁ ∧
      (t₂ ≠ [] → ∃ b, ((r.checkout w working false).finish d).1 = .ok b) ∧
      r.Guarded working (t₁ ++ t₂) := by
  obtain ⟨t₁, hleads, move⟩ := checkout_sends (w := w) (r := r) working false d rfl
  have hreset : ["reset", "--hard"] ∉ gitCommands t₁ := fun h => by
    simpa [checkoutCommands] using move.commands h
  unfold prepare
  rw [Git.finish_bind]
  rcases hcheckout : (r.checkout w working false).finish d with ⟨out, d₁⟩
  rw [hcheckout] at hleads move
  cases out with
  -- the checkout failed, and nothing follows it
  | error f =>
      refine ⟨t₁, [], hleads.transcript, ?_, hreset, by simp, ?_⟩
      · rw [List.append_nil]
        exact hleads.transcript
      · rw [List.append_nil]
        exact (Prepares.stuck move).guarded
  | ok b =>
      obtain ⟨t₂, hleads', reset⟩ := reset_sends (w := w) (r := r) working d₁ rfl
      refine ⟨t₁, t₂, hleads.transcript, (hleads.trans hleads').transcript, hreset, ?_, ?_⟩
      · exact fun _ => ⟨b, rfl⟩
      · exact (Prepares.moved move reset).guarded

end Repository

end CodeSweep
