import CodeSweep.Proofs.Git.PushSafety
import CodeSweep.Proofs.Git.Reconcile

/-! # Pushing with HEAD on a branch, and on none

A push is for the branch that is checked out, which is the one with a star in a listing. But where HEAD
is on no branch, a listing begins with a notice that has a star as well, and it is read as a branch:

    * codemods/x                      ──▶  codemods/x
      main

    * (HEAD detached at 1234567)      ──▶  (HEAD detached at 1234567)
      main

So looking for the branch that is checked out always finds one, and a push never waits for HEAD to be on
a branch. With HEAD on a branch what is pushed is that branch; with HEAD on none it is the notice, which
git turns down (`push_publishes_marked`). -/

namespace CodeSweep

/-- What is put in parentheses is a notice, if it stands on one line and has a blank. -/
theorem isNotice_of_parens (text : String) (hblank : ' ' ∈ text.toList) (hbreak : '\n' ∉ text.toList)
    (hstar : '*' ∉ text.toList) : IsNotice ("(" ++ text ++ ")") := by
  have hlist : ("(" ++ text ++ ")").toList = '(' :: (text.toList ++ [')']) := by
    simp
  refine ⟨⟨?_, ?_, ?_, ⟨?_, ?_⟩⟩, ?_⟩
  · simp [hlist]
  · simp [hlist, hbreak]
  · simp [hlist, hstar]
  · intro c hc
    obtain rfl : '(' = c := by simpa [hlist] using hc
    decide
  · intro c hc
    obtain rfl : ')' = c := by simpa [hlist, List.getLast?_cons] using hc
    decide
  · simp [hlist, hblank]

namespace WorkingCopy

variable {g : WorkingCopy} {b : Branch} {stdout : String}

/-- What git lists: the local branches with a star at HEAD, after a notice with a star where HEAD is on
none of them. -/
inductive Lists (g : WorkingCopy) : String → Prop
  | attached (h : g.head ≠ none) : Lists g (Branch.printLocal g.branches)
  | detached {text} (h : g.head = none) (hn : IsNotice text) :
      Lists g (Branch.printLocal ({ name := text, selected := true } :: g.branches))

theorem Lists.prints (h : g.Lists stdout) : g.Prints IsNotice ["branch"] stdout := by
  cases h with
  | attached => exact .inl rfl
  | detached h hn => exact .inr ⟨h, _, hn, rfl⟩

/-- Wherever HEAD is, a listing marks something. -/
theorem Lists.markedIn_ne_none (h : g.Lists stdout) : Branch.markedIn stdout ≠ none := by
  cases h with
  | attached h =>
      obtain ⟨name, hname⟩ := Option.ne_none_iff_exists'.mp h
      have hmem : { name, selected := true } ∈ g.branches :=
        List.mem_map.mpr ⟨name, g.head_local name hname, by simp [hname]⟩
      rw [Branch.markedIn, Branch.readLocal_printLocal printable_of_mem_branches]
      intro hnone
      exact absurd rfl (List.find?_eq_none.mp hnone _ hmem)
  | detached h hn =>
      rw [Branch.markedIn, Branch.readLocal_printLocal (printable_of_mem_notice hn.printable)]
      intro hnone
      cases hnone

/-- What it marks is the branch that HEAD is on, or the notice that it is on none. -/
theorem Lists.marked (h : g.Lists stdout) :
    ∃ b, Branch.markedIn stdout = some b ∧ g.Coherent IsNotice (some b) := by
  obtain ⟨b, hb⟩ := Option.ne_none_iff_exists'.mp h.markedIn_ne_none
  exact ⟨b, hb, hb ▸ h.prints.coherent fun _ => IsNotice.printable⟩

/-- A notice is no local branch. -/
theorem Coherent.head_of_mem_locals (h : g.Coherent IsNotice (some b)) (hmem : b.name ∈ g.locals) :
    g.head = some b.name := by
  rcases h b rfl with hhead | ⟨-, hnotice⟩
  · exact hhead
  · have hname := g.locals_named _ hmem
    rw [hnotice.not_name] at hname
    cases hname

end WorkingCopy

/-- Outside, git lists the working copy in `dir` as it is. -/
def World.Lists {σ : Type} (w : World σ) (dir : Path) (copy : σ → WorkingCopy) : Prop :=
  ∀ e s s' o, w.Moves e s s' → WorkingCopy.succeeded? dir e = some (["branch"], o) →
    (copy s).Lists o.stdout

/-- Every listing among the exchanges shows the working copy as it was then. -/
def Listed (dir : Path) (g : WorkingCopy) (t : List Exchange) : Prop :=
  Throughout (fun before e _ => ∀ o, WorkingCopy.succeeded? dir e = some (["branch"], o) →
    (g.replay dir before).Lists o.stdout) t

theorem World.Lists.listed {σ : Type} {w : World σ} {dir : Path} {notice : String → Prop}
    {copy : σ → WorkingCopy} {s s' : σ} {t : List Exchange} (hl : w.Lists dir copy)
    (hw : w.Keeps dir notice copy) (h : Conversation w s t s') : Listed dir (copy s) t := by
  induction h with
  | nil => exact throughout_nil
  | cons hm _ ih =>
      rw [Listed, hw.follows _ _ _ hm] at ih
      exact throughout_cons.mpr ⟨fun o ho => hl _ _ _ o hm ho, ih⟩

namespace WorkingCopy

variable {g : WorkingCopy} {dir : Path} {t : List Exchange}

theorem git?_of_succeeded? {e : Exchange} {args : List String} {o : Output}
    (h : succeeded? dir e = some (args, o)) : e.git? = some args := by
  unfold succeeded? at h
  split at h
  next =>
    split at h
    next hc =>
      cases h
      exact if_pos hc.2.1
    next => cases h
  next => cases h

/-- Commands that only look leave the working copy as it is. -/
theorem replay_of_looks (h : ∀ args ∈ gitCommands t, g.after? args = some g) :
    g.replay dir t = g := by
  induction t with
  | nil => rfl
  | cons e t ih =>
      have hnext : g.next dir e = g := by
        unfold next
        split
        next args o hs =>
          rw [h args (List.mem_filterMap.mpr ⟨e, by simp, git?_of_succeeded? hs⟩), Option.getD_some]
        next => rfl
      rw [replay_cons, hnext]
      exact ih fun args hargs => h args (by grind [gitCommands])

/-- The simulated world lists the working copy that it simulates. -/
theorem world_lists {remote main : String} {plan : Nat → Option Failure} :
    (world dir remote main plan).Lists dir (·.2) := by
  rintro e ⟨n, g⟩ ⟨n', g'⟩ o hm hs
  -- only a command that succeeded is a listing
  unfold succeeded? at hs
  split at hs
  next c o' =>
    obtain ⟨disk, disk', hrun⟩ := hm
    split at hs
    next hc =>
      obtain ⟨hargs, rfl⟩ := Prod.mk.inj (Option.some.inj hs)
      simp only [world, simulate, hc, hargs, and_self, if_true] at hrun
      split at hrun
      next =>
        cases hrun
        show g.Lists (g.printed remote ["branch"])
        cases hh : g.head with
        | some name =>
            have hprinted : g.printed remote ["branch"] = Branch.printLocal g.branches := by
              simp [printed, hh]
            rw [hprinted]
            exact .attached (by simp [hh])
        | none =>
            have hprinted : g.printed remote ["branch"] =
                Branch.printLocal ({ name := "(no branch)", selected := true } :: g.branches) := by
              simp [printed, hh]
            rw [hprinted]
            exact .detached hh isNotice_noBranch
      · cases hrun
      · cases hrun
        cases hc.2.2
    next => cases hs
  next => cases hs

end WorkingCopy

namespace Repository

open WorkingCopy (world web desk)

variable {σ : Type} {w : World σ} {copy : σ → WorkingCopy} {r : Repository} {g : WorkingCopy}
  {c c' : Option Branch} {t t' : List Exchange} {b : Branch}

/-! ## Looking for the branch that is checked out -/

/-- How looking for the branch that is checked out goes from the working copy `g`: what is marked there is
found, unless the branches are not listed. -/
inductive FindsMarked (r : Repository) (g : WorkingCopy) :
    List Exchange → Except GitFault (Option Branch) → Prop
  | found {o b} (ho : o.success = true) (marks : g.Coherent IsNotice (some b)) :
      FindsMarked r g [r.ran ["branch"] (.ok o)] (.ok (some b))
  | unlisted {reply f} (hfailed : Reply.succeeded reply = false) :
      FindsMarked r g [r.ran ["branch"] reply] (.error f)

theorem Selects.findsMarked {out : Except GitFault (Option Branch)} (look : r.Selects none t out c')
    (hlisted : Listed r.path g t) : r.FindsMarked g t out := by
  cases look with
  | listed ho hb =>
      obtain ⟨b, hmarked, hmarks⟩ :=
        ((throughout_cons.mp hlisted).1 _ (WorkingCopy.succeeded?_ran_ok ho)).marked
      rw [← hb, hmarked]
      exact .found ho hmarks
  | failed hfailed => exact .unlisted hfailed

theorem Selected.marks (h : r.Selected t none b) (hlisted : Listed r.path g t)
    (hlooks : ∀ args ∈ gitCommands t, g.after? args = some g) : g.Coherent IsNotice (some b) := by
  cases h with
  | listed hran ho hb =>
      obtain ⟨before, after, rfl⟩ := List.append_of_mem hran
      have hlist := hlisted before _ after rfl _ (WorkingCopy.succeeded?_ran_ok ho)
      rw [WorkingCopy.replay_of_looks fun args hargs => hlooks args (by simp [hargs])] at hlist
      obtain ⟨b', hmarked, hmarks⟩ := hlist.marked
      rwa [Option.some.inj (hb.symm.trans hmarked)]

/-! ## Pushing -/

/-- All that a push waits for: a remote with a name, a branch that is marked, another default branch, and
everything staged. -/
structure Cleared (r : Repository) (t : List Exchange) (remote : String) (b : Branch) : Prop where
  named : r.NamesRemote t remote
  selected : r.Selected t none b
  other : ∃ main, .defaultBranch r.address (.ok main) ∈ t ∧ b.name ≠ main
  staged : ∃ o : Output, o.success = true ∧ r.ran ["add", "."] (.ok o) ∈ t

/-- Why nothing is pushed: no remote is named, the branches are not listed, the default branch is not told,
it is the one that is marked, or staging fails. -/
inductive Hindered (r : Repository) (t : List Exchange) : Prop
  | unnamed {reply} (hran : r.ran ["remote"] reply ∈ t)
      (hnone : ∀ o, reply = .ok o → o.success = true → firstRemote? o.stdout = none)
  | unlisted {reply} (hran : r.ran ["branch"] reply ∈ t) (hfailed : Reply.succeeded reply = false)
  | untold {cause} (hasked : .defaultBranch r.address (.error cause) ∈ t)
  | onMain {b : Branch} (hasked : .defaultBranch r.address (.ok b.name) ∈ t) (hselected : r.Selected t none b)
  | unstaged {reply} (hran : r.ran ["add", "."] reply ∈ t) (hfailed : Reply.succeeded reply = false)

/-- How a call of `push` goes from the working copy `g`: with one push of what is marked there, which
fails where HEAD is on no branch, or with none, for a reason that has nothing to do with HEAD. -/
inductive PushesMarked (r : Repository) (g : WorkingCopy) :
    List Exchange → Except GitFault Unit → Prop
  | issued {t out remote b} (marks : g.Coherent IsNotice (some b)) (clear : r.Cleared t remote b)
      (honly : (gitCommands t).filter pushes = [pushArgs remote b.name])
      (hdetached : g.head = none → ∃ f, out = .error f) : PushesMarked r g t out
  | withheld {t f} (hindered : r.Hindered t) (hnone : (gitCommands t).filter pushes = []) :
      PushesMarked r g t (.error f)

theorem NamesRemote.mono {remote : String} (h : r.NamesRemote t remote) (hsub : t ⊆ t') :
    r.NamesRemote t' remote := by
  obtain ⟨o, line, lines, hran, hnames⟩ := h
  exact ⟨o, line, lines, hsub hran, hnames⟩

/-- What comes before a push with nothing remembered only looks, and is no push. -/
theorem looks_before_push (g : WorkingCopy) :
    ∀ args ∈ beforePush none, g.after? args = some g ∧ ¬ pushes args = true := by
  intro args hargs
  simp only [beforePush, if_true, List.cons_append, List.nil_append, List.mem_cons, List.not_mem_nil,
    or_false] at hargs
  rcases hargs with rfl | rfl | rfl <;> exact ⟨rfl, by decide⟩

/-- A push that git turned down fails the call. -/
theorem Pushes.failed {early : List Exchange} {args : List String} {reply : Reply}
    {out : Except GitFault Unit} (push : r.Pushes c (early ++ [r.ran args reply]) out c')
    (hreply : Reply.succeeded reply = false) : ∃ f, out = .error f := by
  generalize ht : early ++ [r.ran args reply] = t at push
  cases push with
  | sent _ _ _ _ _ _ sent =>
      cases sent with
      | failed => exact ⟨_, rfl⟩
      | done ho =>
          have hlast := congrArg List.getLast? ht
          simp only [List.getLast?_append, List.getLast?_singleton, Option.some_or,
            Option.some.injEq, ran_inj] at hlast
          rw [hlast.2] at hreply
          exact absurd ho (by simpa using hreply)
  | _ => exact ⟨_, rfl⟩

/-- Only a local branch is pushed with success. -/
theorem mem_locals_of_push {remote : String} {reply : Reply}
    (h : g.Allows r.path IsNotice (r.ran (pushArgs remote b.name) reply))
    (hreply : Reply.succeeded reply = true) : b.name ∈ g.locals := by
  match reply, hreply with
  | .ok o, ho =>
      have hafter := (h.of_ran ho).1
      rw [pushArgs, WorkingCopy.after?] at hafter
      split at hafter
      next hmem => exact hmem
      next => exact absurd rfl hafter

/-- A push that was safe was cleared, was for what is marked, and was the only one. -/
theorem exists_marked_of_safe (h : r.PushesSafely none t) (ht : g.Explains r.path IsNotice t)
    (hlisted : Listed r.path g t) :
    ∃ early remote b reply, t = early ++ [r.ran (pushArgs remote b.name) reply] ∧
      g.Coherent IsNotice (some b) ∧ r.Cleared t remote b ∧
      (gitCommands t).filter pushes = [pushArgs remote b.name] ∧
      g.Allows r.path IsNotice (r.ran (pushArgs remote b.name) reply) := by
  cases h with
  | @intro early remote b main staged reply hremote hselected hmain honly hne hstaged hsuccess
      hcommands =>
    have hlooks := hcommands ▸ looks_before_push g
    rw [WorkingCopy.explains_append, WorkingCopy.explains_cons,
      WorkingCopy.replay_of_looks fun args hargs => (hlooks args hargs).1] at ht
    refine ⟨early, remote, b, reply, rfl, ?_, ⟨?_, ?_, ⟨main, ?_, hne⟩, staged, hsuccess, ?_⟩, ?_, ht.2.1⟩
    · exact hselected.marks (throughout_append.mp hlisted).1 fun args hargs => (hlooks args hargs).1
    · exact hremote.mono (List.subset_append_left _ _)
    · exact hselected.mono (List.subset_append_left _ _)
    · exact List.mem_append_left _ hmain
    · exact List.mem_append_left _ hstaged
    · have hquiet : (gitCommands early).filter pushes = [] :=
        List.filter_eq_nil_iff.mpr fun args hargs => (hlooks args hargs).2
      rw [gitCommands_append, List.filter_append, hquiet, gitCommands_ran]
      rfl

/-- Since a listing always marks something, a push is withheld for other reasons only. -/
theorem Pushes.hindered {out : Except GitFault Unit} (push : r.Pushes none t out c')
    (hlisted : Listed r.path g t) (hquiet : ∀ args ∈ gitCommands t, ¬ pushes args = true) :
    r.Hindered t := by
  cases push with
  | @unnamed reply f hfailed =>
      refine .unnamed List.mem_cons_self fun o ho hsuccess => ?_
      rw [ho, Reply.succeeded_ok, hsuccess] at hfailed
      cases hfailed
  | unknown _ look =>
      cases look with
      | failed hfailed => exact .unlisted (by simp) hfailed
  | @missing o t b? _ f _ look hnone =>
      rcases hnone with hunnamed | rfl
      · refine .unnamed List.mem_cons_self fun o' ho' _ => ?_
        cases ho'
        exact hunnamed
      · have hlater := (throughout_cons.mp hlisted).2
        simp only [WorkingCopy.replay_cons, WorkingCopy.next_remote] at hlater
        cases look.findsMarked hlater
  | unanswered _ _ _ ask =>
      cases ask with
      | @refused _ cause _ => exact @Hindered.untold r _ cause (by simp)
  | refused _ _ look ask hb =>
      subst hb
      refine .onMain (by simp [ask.mem_of_ok]) (look.selected.mono ?_)
      exact List.subset_append_of_subset_right _ (List.subset_append_left _ _)
  | unstaged _ _ _ _ _ hfailed => exact .unstaged (by simp) hfailed
  | @sent o remote t₁ b _ t₂ main o' t₃ _ _ _ _ _ _ _ sent =>
      have hpushed : pushArgs remote b.name ∈ gitCommands t₃ := by
        cases sent <;> simp
      exact absurd rfl (hquiet (pushArgs remote b.name) (by simp [hpushed]))

theorem Pushes.marked {out : Except GitFault Unit} (push : r.Pushes none t out c')
    (ht : g.Explains r.path IsNotice t) (hlisted : Listed r.path g t) : r.PushesMarked g t out := by
  rcases push.safe with hsafe | ⟨hquiet, f, rfl⟩
  · obtain ⟨early, remote, b, reply, rfl, hmarks, hclear, honly, hallows⟩ :=
      exists_marked_of_safe hsafe ht hlisted
    refine .issued hmarks hclear honly fun hhead => push.failed ?_
    -- a push that went through would be of a local branch, and so of the one that HEAD is on
    rw [Bool.eq_false_iff]
    intro hreply
    have hon := hmarks.head_of_mem_locals (mem_locals_of_push hallows hreply)
    rw [hhead] at hon
    cases hon
  · exact .withheld (push.hindered hlisted hquiet) (List.filter_eq_nil_iff.mpr hquiet)

/-- **A push is for what a listing marks, wherever HEAD is.** With nothing remembered, looking for the
branch that is checked out never finds none: where the branches are listed it finds the branch that HEAD is
on, or the notice that it is on none. A push is for just that and waits for nothing about HEAD; where HEAD
is on no branch it fails, once git was asked. -/
theorem push_publishes_marked (hw : w.Keeps r.path IsNotice copy) (hl : w.Lists r.path copy)
    (d : Desk σ) (hd : d.current = none) :
    (∃ t, ((r.selectedBranch w).finish d).2.session.transcript = d.session.transcript ++ t ∧
        r.FindsMarked (copy d.session.outside) t ((r.selectedBranch w).finish d).1) ∧
      ∃ t, ((r.push w).finish d).2.session.transcript = d.session.transcript ++ t ∧
        r.PushesMarked (copy d.session.outside) t ((r.push w).finish d).1 := by
  constructor
  · obtain ⟨t, hleads, look⟩ := selectedBranch_sends (w := w) (r := r) d hd
    exact ⟨t, hleads.transcript, look.findsMarked (hl.listed hw hleads.conversation)⟩
  · obtain ⟨t, hleads, push⟩ := push_sends (w := w) (r := r) d hd
    refine ⟨t, hleads.transcript, push.marked ?_ (hl.listed hw hleads.conversation)⟩
    exact hw.explains hleads.conversation

/-- HEAD is on a branch, nothing fails, and that branch is pushed. -/
theorem push_publishes_marked_switched :
    ∃ t remote, ((web.push (world web.path "origin" "main" fun _ => none)).finish
        (desk (strayed.switch "codemods/x" (by decide)))).2.session.transcript = t ∧
      (gitCommands t).filter pushes = [pushArgs remote "codemods/x"] := by
  obtain ⟨-, t, ht, hpush⟩ := push_publishes_marked (WorkingCopy.world_keeps isNotice_noBranch)
    WorkingCopy.world_lists (desk (strayed.switch "codemods/x" (by decide))) rfl
  have hok : ((web.push (world web.path "origin" "main" fun _ => none)).finish
      (desk (strayed.switch "codemods/x" (by decide)))).1 = .ok () := rfl
  rw [hok] at hpush
  cases hpush with
  | @issued _ remote b marks _ honly _ =>
      rcases marks b rfl with hhead | ⟨hhead, -⟩
      · rw [← Option.some.inj hhead] at honly
        exact ⟨t, remote, ht, honly⟩
      · cases hhead

/-- A world in which HEAD is on a commit and on no branch, and in which every push is turned down. -/
def onCommit : World Unit where
  run c state :=
    if c.args = ["branch"] then
      (.ok { stdout := "* (HEAD detached at 1234567)\n  main\n  codemods/x\n" }, state)
    else if c.args = ["remote"] then (.ok { stdout := "origin\n" }, state)
    else (.ok { success := !pushes c.args }, state)
  hosting := Hosting.ofTables (fun _ => some "main") (fun _ => none)

/-- With HEAD on a commit, the notice is taken for the branch that is checked out, and pushed. -/
theorem push_publishes_notice :
    strayed.head = none ∧ strayed.Lists "* (HEAD detached at 1234567)\n  main\n  codemods/x\n" ∧
      ((web.selectedBranch onCommit).finish
          { current := none, session := { disk := {}, outside := () } }).1 =
        .ok (some { name := "(HEAD detached at 1234567)", selected := true }) ∧
      gitCommands ((web.push onCommit).finish
          { current := none, session := { disk := {}, outside := () } }).2.session.transcript =
        [["remote"], ["branch"], ["add", "."], pushArgs "origin" "(HEAD detached at 1234567)"] := by
  have hnotice : IsNotice "(HEAD detached at 1234567)" :=
    isNotice_of_parens "HEAD detached at 1234567" (by decide) (by decide) (by decide)
  have hlisting : "* (HEAD detached at 1234567)\n  main\n  codemods/x\n" = Branch.printLocal
      ({ name := "(HEAD detached at 1234567)", selected := true } :: strayed.branches) := by
    decide +kernel
  refine ⟨rfl, ?_, ?_, by decide +kernel⟩
  · rw [hlisting]
    exact .detached rfl hnotice
  · rfl

end Repository

end CodeSweep
