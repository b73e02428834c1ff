import CodeSweep.Proofs.Git.Coherence
import CodeSweep.Proofs.Git.Commands

/-! # Reconciling a working branch

Over a working copy that behaves, and whatever fails on the way:

* `prepare_reconciles`: preparing that succeeds ends on the working branch, which after the last fetch
  was rebased onto the default branch of the remote or made anew from it; and it is made anew only
  after a rebase that failed, or when the remote does not have it.
* `default_branch_guarded`: bringing a branch up to date succeeds on the default branch exactly when the
  default branch itself was asked for, the remote has it, and the rebase went through. Otherwise
  asking for the default branch is refused once the rebase is over. -/

namespace CodeSweep

open Branch (isName Printable)

/-- What a listing may show where HEAD is on no branch, such as `(no branch)`: a text on one line with
a blank in it. -/
def IsNotice (text : String) : Prop := Printable text ∧ ' ' ∈ text.toList

theorem IsNotice.printable {text : String} (h : IsNotice text) : Printable text := h.1

/-- A notice is no name, so no branch is taken for it. -/
theorem IsNotice.not_name {text : String} (h : IsNotice text) : isName text = false := by
  rw [Bool.eq_false_iff]
  intro hname
  obtain ⟨-, hall⟩ := Branch.isName_iff.mp hname
  exact absurd (hall ' ' h.2).1 (by decide)

theorem isNotice_noBranch : IsNotice "(no branch)" := by
  refine ⟨⟨by decide, by decide, by decide, ⟨?_, ?_⟩⟩, by decide⟩
  · rintro c ⟨⟩
    decide
  · rintro c ⟨⟩
    decide

namespace Repository

open WorkingCopy (world web desk)

variable {r : Repository} {g : WorkingCopy} {c c' : Option Branch} {t : List Exchange}
  {working : String} {known : Survey}

/-! ## What is said about a transcript -/

/-- `late` is all that came after the last fetch, which succeeded. -/
structure LastFetch (r : Repository) (t early late : List Exchange) : Prop where
  split : t = early ++ late
  fetched : ∃ o : Output, o.success = true ∧ early.getLast? = some (r.ran ["fetch"] (.ok o))
  last : ["fetch"] ∉ gitCommands late

/-- The working branch was rebased onto `base`: the rebase succeeded, and HEAD was on the branch when
it was run. -/
def RebasedOnto (r : Repository) (g : WorkingCopy) (working base : String) (t : List Exchange) : Prop :=
  ∃ before o after, o.success = true ∧ t = before ++ r.ran ["rebase", base] (.ok o) :: after ∧
    (g.replay r.path before).head = some working

/-- The working branch was made anew from `base`. -/
def RecreatedFrom (r : Repository) (working base : String) (t : List Exchange) : Prop :=
  ∃ o, o.success = true ∧ r.ran ["checkout", "-b", working, base] (.ok o) ∈ t

/-- A rebase onto the default branch of the remote came to an end with success or without. -/
def RebaseEnded (r : Repository) (success : Bool) (t : List Exchange) : Prop :=
  ∃ known o, Learned known t ∧ o.success = success ∧ r.ran ["rebase", known.base] (.ok o) ∈ t

/-- Whether a command deletes a branch or makes one from a start of its own. -/
def rebuilds : List String → Bool
  | ["branch", "-D", _] => true
  | ["checkout", "-b", _, _] => true
  | _ => false

/-- Nothing is deleted or made anew before a rebase has failed, except where the remote does not have
the working branch. -/
def RebuildsWithCause (r : Repository) (g : WorkingCopy) (working : String) (t : List Exchange) :
    Prop :=
  Throughout (fun before e _ => ∀ args, e.git? = some args → rebuilds args = true →
    r.RebaseEnded false before ∨ working ∉ g.remotes) t

/-! ## Bringing a branch up to date -/

/-- The name of a branch that the remote has is no notice, so that a checkout ends on it. -/
theorem ChecksOut.head_eq_of_pushed {b : Branch}
    (move : r.ChecksOut working false c t (.ok b) c') (ht : g.Explains r.path IsNotice t)
    (hc : g.Coherent IsNotice c) (hp : working ∈ g.remotes) :
    (g.replay r.path t).head = some working := by
  rcases move.head_eq (fun _ => IsNotice.printable) ht hc with hhead | ⟨-, hnotice⟩
  · exact hhead
  · have hname := g.remotes_named working hp
    rw [hnotice.not_name] at hname
    cases hname

theorem Updates.reconciled (update : r.Updates working c t (.ok ()) c')
    (ht : g.Explains r.path IsNotice t) (hc : g.Coherent IsNotice c) :
    (g.replay r.path t).head = some working ∧ ∃ known, Learned known t ∧
      (r.RebasedOnto g working known.base t ∨ r.RecreatedFrom working known.base t) := by
  cases update with
  | @rebased t₁ known t₂ b c' t₃ survey move rebase hp =>
      have hlearned := learned_of_rebase survey move rebase
      simp only [WorkingCopy.explains_append, survey.replay_eq] at ht
      -- the remote has the branch, so its name is a name and the checkout ends on it
      have hpushed := (survey.pushed_iff ht.1).mp hp
      have hhead := move.head_eq_of_pushed ht.2.1 hc hpushed
      have hreplay : (g.replay r.path (t₁ ++ t₂)).head = some working := by
        rw [WorkingCopy.replay_append, survey.replay_eq, hhead]
      refine ⟨?_, known, hlearned, .inl ?_⟩
      · rw [← List.append_assoc, WorkingCopy.replay_append, rebase.replay_eq, hreplay]
      · cases rebase with
        | clean ho => exact ⟨t₁ ++ t₂, _, [], ho, by simp, hreplay⟩
  | @recreated t₁ known t₂ b c' t₃ rebased t₄ out c'' survey move rebase hp anew =>
      have hlearned := learned_of_anew survey move rebase anew
      -- whatever came before, making a branch moves HEAD to it
      simp only [WorkingCopy.explains_append] at ht
      have hhead := (anew.head_eq ht.2.2.2).2
      refine ⟨by simpa using hhead, known, hlearned, .inr ?_⟩
      cases anew with
      | created _ _ ho' => exact ⟨_, ho', by simp⟩

theorem Rebases.ended {base : String} {rebased : Bool} (rebase : r.Rebases base c t (.ok rebased) c') :
    ∃ o, o.success = rebased ∧ r.ran ["rebase", base] (.ok o) ∈ t := by
  cases rebase with
  | clean ho => exact ⟨_, ho, by simp⟩
  | aborted ho => exact ⟨_, ho, by simp⟩

/-- Neither the survey nor a checkout nor a rebase deletes or makes anew. -/
theorem not_rebuilds_of_calm {known? : Option Survey} :
    ∀ args ∈ calmCommands working known?, ¬ rebuilds args = true := by
  cases known? <;> simp [calmCommands, surveyCommands, checkoutCommands, rebaseCommands, rebuilds]

theorem rebuildsWithCause_of_calm {known? : Option Survey}
    (h : gitCommands t ⊆ calmCommands working known?) : r.RebuildsWithCause g working t :=
  throughout_of_commands fun args hargs => not_rebuilds_of_calm args (h hargs)

theorem Updates.rebuildsWithCause {out : Except GitFault Unit} (update : r.Updates working c t out c')
    (ht : g.Explains r.path IsNotice t) : r.RebuildsWithCause g working t := by
  rcases update.calm_or_anew with ⟨known?, -, hcalm⟩ |
    ⟨t₁, known, t₂, b, c₁, t₃, rebased, t₄, rfl, survey, move, rebase, hp, anew⟩
  · exact rebuildsWithCause_of_calm hcalm
  -- the cause is found before the branch is made anew, and stays in sight while that goes on
  · have hcause : ∀ before, Silent before →
        r.RebaseEnded false (t₁ ++ (t₂ ++ t₃) ++ before) ∨ working ∉ g.remotes := by
      intro before hbefore
      cases rebased with
      | false =>
          obtain ⟨o, ho, hran⟩ := rebase.ended
          have hlearned := (learned_of_rebase survey move rebase).append_silent hbefore
          exact .inl ⟨known, o, hlearned, ho, by simp [hran]⟩
      | true =>
          simp only [WorkingCopy.explains_append] at ht
          have hpushed : known.pushed = false := hp
          exact .inr fun hremote => by simp [(survey.pushed_iff ht.1.1).mpr hremote] at hpushed
    refine throughout_append.mpr ⟨rebuildsWithCause_of_calm (calm_of_rebase survey move rebase), ?_⟩
    intro before e after hsplit args _ _
    have hsilent : Silent (before ++ e :: after) := hsplit ▸ anew.silent
    exact hcause before hsilent.of_append

/-! ## Preparing -/

/-- What is done before the survey neither rebuilds nor tells anything, so that causes found later
stay causes. -/
theorem RebuildsWithCause.append {g' : WorkingCopy} {early : List Exchange}
    (h : r.RebuildsWithCause g' working t) (hearly : ∀ args ∈ gitCommands early, ¬ rebuilds args = true)
    (hsilent : Silent early) (hremotes : g'.remotes = g.remotes) :
    r.RebuildsWithCause g working (early ++ t) := by
  refine throughout_append.mpr ⟨throughout_of_commands hearly, ?_⟩
  intro before e after hsplit args hargs hrebuilds
  rcases h before e after hsplit args hargs hrebuilds with ⟨known, o, hlearned, ho, hran⟩ | hp
  · exact .inl ⟨known, o, hsilent.append_learned hlearned, ho, by simp [hran]⟩
  · exact .inr (hremotes ▸ hp)

theorem not_rebuilds_of_checkout : ∀ args ∈ checkoutCommands working, ¬ rebuilds args = true := by
  simp [checkoutCommands, rebuilds]

theorem not_rebuilds_of_clean : ∀ args ∈ cleanCommands, ¬ rebuilds args = true := by
  decide

theorem Prepares.rebuildsWithCause {out : Except GitFault Unit}
    (prepare : r.Prepares working c t out c') (ht : g.Explains r.path IsNotice t) :
    r.RebuildsWithCause g working t := by
  cases prepare with
  | stuck move =>
      exact throughout_of_commands fun args hargs => not_rebuilds_of_checkout args (move.commands hargs)
  | @moved t₁ _ _ _ _ _ move reset =>
      have hmove : ∀ args ∈ gitCommands t₁, ¬ rebuilds args = true := fun args hargs =>
        not_rebuilds_of_checkout args (move.commands hargs)
      rw [WorkingCopy.explains_append] at ht
      refine RebuildsWithCause.append ?_ hmove move.silent (move.remotes_eq ht.1)
      cases reset with
      | dirty clean =>
          exact throughout_of_commands fun args hargs =>
            not_rebuilds_of_clean args (clean.commands hargs)
      | @cleaned t₂ _ _ _ clean update =>
          have hclean : ∀ args ∈ gitCommands t₂, ¬ rebuilds args = true := fun args hargs =>
            not_rebuilds_of_clean args (clean.commands hargs)
          rw [WorkingCopy.explains_append, clean.replay_eq] at ht
          exact (update.rebuildsWithCause ht.2.2).append hclean clean.silent rfl

theorem Resets.fetched_last (clean : r.Resets c t (.ok ()) c') :
    ∃ o : Output, o.success = true ∧ t.getLast? = some (r.ran ["fetch"] (.ok o)) := by
  cases clean with
  | fetched _ _ ho => exact ⟨_, ho, rfl⟩

theorem Updates.no_fetch {out : Except GitFault Unit} (update : r.Updates working c t out c') :
    ["fetch"] ∉ gitCommands t := by
  obtain ⟨known?, -, hcommands⟩ := update.commands
  intro hfetch
  have hnot : ["fetch"] ∉ updateCommands working known? := by
    cases known? <;>
      simp [updateCommands, calmCommands, surveyCommands, checkoutCommands, rebaseCommands,
        recreateCommands]
  exact hnot (hcommands hfetch)

theorem Prepares.reconciled (prepare : r.Prepares working c t (.ok ()) c')
    (ht : g.Explains r.path IsNotice t) (hc : g.Coherent IsNotice c) :
    (g.replay r.path t).head = some working ∧ ∃ known early late, Learned known t ∧
      r.LastFetch t early late ∧
        (r.RebasedOnto (g.replay r.path early) working known.base late ∨
          r.RecreatedFrom working known.base late) := by
  cases prepare with
  | @moved t₁ _ c₁ _ _ _ move reset =>
      cases reset with
      | @cleaned t₂ t₃ _ _ clean update =>
          simp only [WorkingCopy.explains_append, clean.replay_eq] at ht
          -- cleaning moves nothing, so what the checkout remembers still fits when the update begins
          have hc₁ := move.coherent (fun _ => IsNotice.printable) ht.1 hc
          obtain ⟨hhead, known, hlearned, hdone⟩ := update.reconciled ht.2.2 hc₁
          have hreplay : g.replay r.path (t₁ ++ t₂) = g.replay r.path t₁ := by
            rw [WorkingCopy.replay_append, clean.replay_eq]
          refine ⟨?_, known, t₁ ++ t₂, t₃, ?_, ⟨by simp, ?_, update.no_fetch⟩, ?_⟩
          · rw [← List.append_assoc, WorkingCopy.replay_append, hreplay, hhead]
          · exact move.silent.append_learned (clean.silent.append_learned hlearned)
          · obtain ⟨o, ho, hlast⟩ := clean.fetched_last
            exact ⟨o, ho, by rw [List.getLast?_append, hlast, Option.some_or]⟩
          · rw [hreplay]
            exact hdone

variable {σ : Type} {w : World σ} {copy : σ → WorkingCopy}

/-- **Preparing reconciles.** Where it succeeds, HEAD is on the working branch, and since the last fetch
that branch was rebased onto the default branch of the remote with HEAD on it, or made anew from
there. However it ends, nothing is deleted or made anew without cause. -/
theorem prepare_reconciles (hw : w.Keeps r.path IsNotice copy) (working : String) (d : Desk σ)
    (hd : d.current = none) :
    ∃ t, ((r.prepare w working).finish d).2.session.transcript = d.session.transcript ++ t ∧
      (((r.prepare w working).finish d).1 = .ok () →
        (copy ((r.prepare w working).finish d).2.session.outside).head = some working ∧
        ∃ known early late, Learned known t ∧ r.LastFetch t early late ∧
          (r.RebasedOnto ((copy d.session.outside).replay r.path early) working known.base late ∨
            r.RecreatedFrom working known.base late)) ∧
      r.RebuildsWithCause (copy d.session.outside) working t := by
  obtain ⟨t, hleads, prepare⟩ := prepare_sends (w := w) (r := r) working d hd
  have ht := hw.explains hleads.conversation
  refine ⟨t, hleads.transcript, fun hok => ?_, prepare.rebuildsWithCause ht⟩
  rw [hok] at prepare
  rw [hw.replay_eq hleads.conversation]
  exact prepare.reconciled ht WorkingCopy.coherent_none

/-- A working copy whose HEAD is on no branch. -/
def strayed : WorkingCopy where
  locals := ["main", "codemods/x"]
  head := none
  remotes := ["main", "codemods/x"]
  locals_named := by decide
  remotes_named := by decide
  head_local := by decide

/-- The ninth command fails, and the tenth does not start: in `strayed`, a rebase runs into a conflict
and cannot even be given up. -/
def conflict : Nat → Option WorkingCopy.Failure
  | 8 => some .exits
  | 9 => some .unstarted
  | _ => none

theorem prepare_reconciles_after_conflict :
    ((web.prepare (world web.path "origin" "main" conflict) "codemods/x").finish
        (desk strayed)).1 = .ok () ∧
      ((web.prepare (world web.path "origin" "main" conflict) "codemods/x").finish
        (desk strayed)).2.session.outside.2.head = some "codemods/x" ∧
      ∃ t known early late, web.RebuildsWithCause strayed "codemods/x" t ∧ Learned known t ∧
        web.LastFetch t early late ∧
          (web.RebasedOnto (strayed.replay web.path early) "codemods/x" known.base late ∨
            web.RecreatedFrom "codemods/x" known.base late) := by
  have hok : ((web.prepare (world web.path "origin" "main" conflict) "codemods/x").finish
      (desk strayed)).1 = .ok () := rfl
  obtain ⟨t, -, hreconciled, hcause⟩ :=
    prepare_reconciles (WorkingCopy.world_keeps isNotice_noBranch) "codemods/x" (desk strayed) rfl
  obtain ⟨hhead, known, early, late, hdone⟩ := hreconciled hok
  exact ⟨hok, hhead, t, known, early, late, hcause, hdone⟩

/-! ## The default branch itself -/

theorem Survey.base_ne_abort (known : Survey) : known.base ≠ "--abort" := by
  intro h
  have hslash : '/' ∈ known.base.toList := by simp [Survey.base, toString]
  rw [h] at hslash
  exact absurd hslash (by decide)

/-- Neither the survey nor the checkout rebases. -/
theorem mem_of_rebase_mem {t₁ t₂ rest : List Exchange} {moved : Except GitFault Branch} {base : String}
    {reply : Reply} (survey : r.Surveys working c t₁ (.ok known) c)
    (move : r.ChecksOut working false c t₂ moved c')
    (h : r.ran ["rebase", base] reply ∈ t₁ ++ (t₂ ++ rest)) : r.ran ["rebase", base] reply ∈ rest := by
  have h₁ : r.ran ["rebase", base] reply ∉ t₁ :=
    ran_not_mem_of_subset t₁ survey.commands (by simp [surveyCommands])
  have h₂ : r.ran ["rebase", base] reply ∉ t₂ :=
    ran_not_mem_of_subset t₂ move.commands (by simp [checkoutCommands])
  simpa [h₁, h₂] using h

/-- Apart from its abortion there is one rebase, and its exit is what is reported. -/
theorem Rebases.success_eq {base base' : String} {rebased : Bool} {o : Output}
    (rebase : r.Rebases base c t (.ok rebased) c') (h : r.ran ["rebase", base'] (.ok o) ∈ t)
    (hne : base' ≠ "--abort") : o.success = rebased := by
  cases rebase with
  | clean ho =>
      obtain ⟨-, rfl⟩ : base' = base ∧ _ := by simpa using h
      exact ho
  | aborted ho =>
      obtain ⟨-, rfl⟩ : base' = base ∧ _ := by simpa [hne] using h
      exact ho

/-- A rebase that came to an end decides how bringing a branch up to date goes on. -/
theorem Updates.of_rebaseEnded {out : Except GitFault Unit} {success : Bool}
    (update : r.Updates working c t out c') (h : r.RebaseEnded success t)
    (ht : g.Explains r.path IsNotice t) :
    (success = true ∧ working ∈ g.remotes ∧ out = .ok ()) ∨
      (¬ (success = true ∧ working ∈ g.remotes) ∧
        ∃ known c₁ t₁, Learned known t ∧ r.Recreates working known.main known.base c₁ t₁ out c') := by
  obtain ⟨known', o, -, rfl, hran⟩ := h
  cases update with
  | unknown survey =>
      exact absurd hran (ran_not_mem_of_subset t survey.commands (by simp [surveyCommands]))
  | stuck survey move =>
      rw [← List.append_nil (_ ++ _), List.append_assoc] at hran
      exact absurd (mem_of_rebase_mem survey move hran) (by simp)
  | unstarted survey move rebase =>
      have hran := mem_of_rebase_mem survey move hran
      -- a rebase that does not start has no exit
      cases rebase
      simp at hran
  | rebased survey move rebase hp =>
      simp only [WorkingCopy.explains_append] at ht
      have hran := mem_of_rebase_mem survey move hran
      exact .inl ⟨rebase.success_eq hran known'.base_ne_abort, (survey.pushed_iff ht.1).mp hp, rfl⟩
  | @recreated t₁ known t₂ b c₁ t₃ rebased t₄ _ _ survey move rebase hp anew =>
      have hlearned := learned_of_anew survey move rebase anew
      refine .inr ⟨?_, known, c₁, t₄, hlearned, anew⟩
      rintro ⟨hsuccess, hremote⟩
      simp only [WorkingCopy.explains_append] at ht
      have hpushed := (survey.pushed_iff ht.1).mpr hremote
      have hanew : r.ran ["rebase", known'.base] (.ok o) ∉ t₄ :=
        ran_not_mem_of_subset t₄ anew.commands (by simp [recreateCommands])
      have hran : r.ran ["rebase", known'.base] (.ok o) ∈ t₃ := by
        simpa [hanew] using mem_of_rebase_mem survey move hran
      have hrebased := rebase.success_eq hran known'.base_ne_abort
      rw [hpushed, ← hrebased, hsuccess] at hp
      cases hp

theorem Recreates.refused_of_eq {main base : String} {out : Except GitFault Unit}
    (anew : r.Recreates working main base c t out c') (h : working = main) :
    out = .error (r.fault (.invariant onMainBranch)) := by
  cases anew with
  | refused => rfl
  | attached hne => exact absurd h hne
  | lost hne => exact absurd h hne
  | created hne => exact absurd h hne

theorem Learned.eq_main {main : String} (h : Learned known t) (hmain : main ∈ defaultBranches t) :
    main = known.main := by
  rw [h.main] at hmain
  exact List.mem_singleton.mp hmain

/-- The default branch is not made anew, so that only a rebase can succeed on it. -/
theorem Updates.rebased_of_main (update : r.Updates working c t (.ok ()) c')
    (ht : g.Explains r.path IsNotice t) (hmain : working ∈ defaultBranches t) :
    working ∈ g.remotes ∧ r.RebaseEnded true t := by
  cases update with
  | @rebased t₁ known t₂ _ _ t₃ survey move rebase hp =>
      have hlearned := learned_of_rebase survey move rebase
      obtain ⟨o, ho, hran⟩ := rebase.ended
      simp only [WorkingCopy.explains_append] at ht
      exact ⟨(survey.pushed_iff ht.1).mp hp, known, o, hlearned, ho, by simp [hran]⟩
  | @recreated t₁ known t₂ _ _ t₃ _ t₄ _ _ survey move rebase _ anew =>
      have hlearned := learned_of_anew survey move rebase anew
      cases anew.refused_of_eq (hlearned.eq_main hmain)

/-- How the default branch is guarded, from `g` to `g'`: HEAD is left on it with success exactly when
it was itself asked for, the remote has it and the rebase went through. Asking for it and getting past
the rebase in another way is refused. -/
structure GuardsMain (r : Repository) (working : String) (g g' : WorkingCopy) (t : List Exchange)
    (out : Except GitFault Unit) : Prop where
  on_main_iff : ∀ main ∈ defaultBranches t, out = .ok () ∧ g'.head = some main ↔
    working = main ∧ main ∈ g.remotes ∧ r.RebaseEnded true t
  refused : working ∈ defaultBranches t →
    r.RebaseEnded false t ∨ working ∉ g.remotes ∧ r.RebaseEnded true t →
      out = .error (r.fault (.invariant onMainBranch))

theorem Updates.guardsMain {out : Except GitFault Unit} (update : r.Updates working c t out c')
    (ht : g.Explains r.path IsNotice t) (hc : g.Coherent IsNotice c) :
    r.GuardsMain working g (g.replay r.path t) t out := by
  constructor
  · intro main hmain
    constructor
    · rintro ⟨rfl, hhead⟩
      have hworking := (update.reconciled ht hc).1
      obtain rfl : working = main := Option.some.inj (hworking.symm.trans hhead)
      exact ⟨rfl, update.rebased_of_main ht hmain⟩
    · rintro ⟨rfl, hremote, hended⟩
      rcases update.of_rebaseEnded hended ht with ⟨-, -, rfl⟩ | ⟨hnot, -⟩
      · exact ⟨rfl, (update.reconciled ht hc).1⟩
      · exact absurd ⟨rfl, hremote⟩ hnot
  · intro hmain hended
    -- the rebase did not settle it, so the branch is to be made anew, and there the guard stands
    have hanew : ∃ known c₁ t₁, Learned known t ∧
        r.Recreates working known.main known.base c₁ t₁ out c' := by
      rcases hended with hended | ⟨hremote, hended⟩
      · rcases update.of_rebaseEnded hended ht with ⟨hfalse, -⟩ | ⟨-, hanew⟩
        · cases hfalse
        · exact hanew
      · rcases update.of_rebaseEnded hended ht with ⟨-, hremote', -⟩ | ⟨-, hanew⟩
        · exact absurd hremote' hremote
        · exact hanew
    obtain ⟨known, c₁, t₁, hlearned, anew⟩ := hanew
    exact anew.refused_of_eq (hlearned.eq_main hmain)

/-- Before the survey nothing is known of the default branch, and nothing is rebased. -/
theorem GuardsMain.append {g₁ g' : WorkingCopy} {early : List Exchange} {out : Except GitFault Unit}
    (h : r.GuardsMain working g₁ g' t out) (hsilent : Silent early)
    (hearly : ∀ base, ["rebase", base] ∉ gitCommands early) (hremotes : g₁.remotes = g.remotes) :
    r.GuardsMain working g g' (early ++ t) out := by
  have hbranches : defaultBranches (early ++ t) = defaultBranches t := by
    rw [defaultBranches_append, hsilent.main, List.nil_append]
  have hlearned : ∀ known, Learned known (early ++ t) ↔ Learned known t := by
    intro known
    refine ⟨fun h => ⟨hbranches ▸ h.main, ?_⟩, hsilent.append_learned⟩
    rw [← h.remote, remoteNames_append, hsilent.remote, List.nil_append]
  have hended : ∀ success, r.RebaseEnded success (early ++ t) ↔ r.RebaseEnded success t := by
    intro success
    refine exists_congr fun known => exists_congr fun o => ?_
    have hran : r.ran ["rebase", known.base] (.ok o) ∉ early := fun hran =>
      hearly known.base (mem_gitCommands_of_ran early hran)
    simp [hlearned, hran]
  constructor
  · rw [hbranches, hended, ← hremotes]
    exact h.on_main_iff
  · rw [hbranches, hended, hended, ← hremotes]
    exact h.refused

theorem guardsMain_of_silent {g' : WorkingCopy} {out : Except GitFault Unit} (h : Silent t) :
    r.GuardsMain working g g' t out := by
  constructor <;> simp [h.main]

theorem Prepares.guardsMain {out : Except GitFault Unit} (prepare : r.Prepares working c t out c')
    (ht : g.Explains r.path IsNotice t) (hc : g.Coherent IsNotice c) :
    r.GuardsMain working g (g.replay r.path t) t out := by
  cases prepare with
  | stuck move => exact guardsMain_of_silent move.silent
  | moved move reset =>
      cases reset with
      | dirty clean => exact guardsMain_of_silent (move.silent.append clean.silent)
      | @cleaned t₂ t₃ _ _ clean update =>
          simp only [WorkingCopy.explains_append, clean.replay_eq] at ht
          have hc₁ := move.coherent (fun _ => IsNotice.printable) ht.1 hc
          simp only [WorkingCopy.replay_append, clean.replay_eq]
          refine ((update.guardsMain ht.2.2 hc₁).append clean.silent ?_ rfl).append move.silent ?_
            (move.remotes_eq ht.1)
          · intro base hrebase
            have hmem := clean.commands hrebase
            simp [cleanCommands] at hmem
          · intro base hrebase
            have hmem := move.commands hrebase
            simp [checkoutCommands] at hmem

/-- **The default branch is guarded, but for one way.** Bringing a branch up to date, or preparing it,
leaves HEAD on the default branch with success exactly when the default branch was asked for, the
remote has it and the rebase went through; past the rebase every other way is refused. -/
theorem default_branch_guarded (hw : w.Keeps r.path IsNotice copy) (working : String) (x : Git σ Unit)
    (hx : x = r.update w working ∨ x = r.prepare w working) (d : Desk σ)
    (hd : (copy d.session.outside).Coherent IsNotice d.current) :
    ∃ t, (x.finish d).2.session.transcript = d.session.transcript ++ t ∧
      r.GuardsMain working (copy d.session.outside) (copy (x.finish d).2.session.outside) t
        (x.finish d).1 := by
  rcases hx with rfl | rfl
  · obtain ⟨t, hleads, update⟩ := update_sends (w := w) (r := r) working d rfl
    have ht := hw.explains hleads.conversation
    refine ⟨t, hleads.transcript, ?_⟩
    rw [hw.replay_eq hleads.conversation]
    exact update.guardsMain ht hd
  · obtain ⟨t, hleads, prepare⟩ := prepare_sends (w := w) (r := r) working d rfl
    have ht := hw.explains hleads.conversation
    refine ⟨t, hleads.transcript, ?_⟩
    rw [hw.replay_eq hleads.conversation]
    exact prepare.guardsMain ht hd

/-- A working copy that is on the default branch, and has no other. -/
def onMain : WorkingCopy where
  locals := ["main"]
  head := some "main"
  remotes := ["main"]
  locals_named := by decide
  remotes_named := by decide
  head_local := by decide

/-- The one way: nothing fails, and preparing the default branch succeeds on it. -/
theorem prepare_succeeds_on_main :
    ((web.prepare (world web.path "origin" "main" fun _ => none) "main").finish
        (desk onMain)).1 = .ok () ∧
      ((web.prepare (world web.path "origin" "main" fun _ => none) "main").finish
        (desk onMain)).2.session.outside.2.head = some "main" ∧
      defaultBranches ((web.prepare (world web.path "origin" "main" fun _ => none) "main").finish
        (desk onMain)).2.session.transcript = ["main"] :=
  ⟨rfl, rfl, rfl⟩

theorem default_branch_guarded_on_main :
    ∃ t, ((web.prepare (world web.path "origin" "main" fun _ => none) "main").finish
        (desk onMain)).2.session.transcript = t ∧ "main" ∈ onMain.remotes ∧ web.RebaseEnded true t := by
  obtain ⟨t, ht, hguards⟩ :=
    default_branch_guarded (WorkingCopy.world_keeps isNotice_noBranch) "main"
      (web.prepare (world web.path "origin" "main" fun _ => none) "main") (.inr rfl) (desk onMain)
      WorkingCopy.coherent_none
  have hmain : defaultBranches t = ["main"] := by
    rw [← List.nil_append t]
    exact ht ▸ rfl
  exact ⟨t, ht, ((hguards.on_main_iff "main" (by simp [hmain])).mp ⟨rfl, rfl⟩).2⟩

end Repository

end CodeSweep
