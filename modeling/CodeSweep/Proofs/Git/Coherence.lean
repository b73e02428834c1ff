import CodeSweep.Proofs.Git.WorkingCopy

/-! # What is remembered is where HEAD is

A repository remembers the branch that it found or checked out. Over a working copy that behaves, this
is the branch that HEAD is on, or the notice that a listing shows where HEAD is on no branch
(`WorkingCopy.Coherent`). For every behaviour there are up to three lemmas: what it leaves of the
working copy, that what it remembers is `coherent`, and, where it succeeds, the branch that HEAD is on
afterwards. -/

namespace CodeSweep

open Branch (isName isHash Printable)

/-! ## Listings of a working copy -/

namespace WorkingCopy

variable {notice : String → Prop} {g : WorkingCopy} {c : Option Branch} {stdout : String}

/-- The branch that is remembered is the one that HEAD is on, or the notice that it is on none. -/
def Coherent (notice : String → Prop) (g : WorkingCopy) (c : Option Branch) : Prop :=
  ∀ b ∈ c, g.head = some b.name ∨ g.head = none ∧ notice b.name

theorem coherent_none : g.Coherent notice none := by
  rintro b ⟨⟩

theorem coherent_of_head {name : String} (h : g.head = some name) :
    g.Coherent notice (some { name, selected := true }) := by
  rintro b ⟨⟩
  exact .inl h

theorem printable_of_mem_branches : ∀ b ∈ g.branches, Printable b.name := by
  intro b hb
  obtain ⟨name, hname, rfl⟩ := List.mem_map.mp hb
  exact isName.printable (g.locals_named name hname)

theorem printable_of_mem_notice {text : String} (h : Printable text) :
    ∀ b ∈ { name := text, selected := true } :: g.branches, Printable b.name := by
  intro b hb
  rcases List.mem_cons.mp hb with rfl | hb
  · exact h
  · exact printable_of_mem_branches b hb

theorem head_of_marked {b : Branch} (h : g.branches.find? (·.selected) = some b) :
    g.head = some b.name := by
  obtain ⟨name, -, rfl⟩ := List.mem_map.mp (List.mem_of_find?_eq_some h)
  simpa using List.find?_some h

/-- The branch that a listing marks is the one that HEAD is on. -/
theorem Prints.coherent (hn : ∀ text, notice text → Printable text)
    (h : g.Prints notice ["branch"] stdout) : g.Coherent notice (Branch.markedIn stdout) := by
  intro b hb
  rcases h with rfl | ⟨hhead, text, htext, rfl⟩
  · rw [Branch.markedIn, Branch.readLocal_printLocal printable_of_mem_branches] at hb
    exact .inl (head_of_marked hb)
  · rw [Branch.markedIn, Branch.readLocal_printLocal (printable_of_mem_notice (hn text htext))] at hb
    cases hb
    exact .inr ⟨hhead, htext⟩

/-- A remote listing has the branches of the remote. -/
theorem Prints.any_remote (h : g.Prints notice ["ls-remote", "--heads"] stdout) (name : String) :
    (Branch.readRemote stdout).any (·.name == name) = true ↔ name ∈ g.remotes := by
  obtain ⟨hash, hhash, rfl⟩ := h
  have hheads : ∀ head ∈ g.remotes.map fun b => (hash b, b),
      isHash head.1 = true ∧ isName head.2 = true := by
    intro head hhead
    obtain ⟨b, hb, rfl⟩ := List.mem_map.mp hhead
    exact ⟨hhash b, g.remotes_named b hb⟩
  rw [Branch.readRemote_printRemote hheads]
  simp

theorem head_of_move {g' : WorkingCopy} {name : String} {existing : Bool}
    (h : g.after? (Repository.moveArgs name existing) = some g') :
    g'.head = some name ∧ g'.remotes = g.remotes := by
  cases existing with
  | true => exact head_of_checkout h
  | false => exact (head_of_create h).2

end WorkingCopy

namespace Repository

variable {r : Repository} {notice : String → Prop} {g : WorkingCopy} {c c' : Option Branch}
  {t : List Exchange}

/-! ## Looking and moving -/

theorem Selects.replay_eq {out : Except GitFault (Option Branch)} (look : r.Selects c t out c') :
    g.replay r.path t = g := by
  cases look <;> simp

theorem Selects.remembered {b? : Option Branch} (look : r.Selects c t (.ok b?) c') : c' = b? := by
  cases look <;> rfl

theorem Selects.coherent {out : Except GitFault (Option Branch)}
    (hn : ∀ text, notice text → Printable text) (look : r.Selects c t out c')
    (ht : g.Explains r.path notice t) (hc : g.Coherent notice c) : g.Coherent notice c' := by
  cases look with
  | known => exact hc
  | listed ho hb =>
      obtain ⟨-, hprints⟩ := ht.1.of_ran ho
      exact hb ▸ hprints.coherent hn
  | failed => exact WorkingCopy.coherent_none

variable {name : String} {fresh : Bool}

theorem MovesTo.remotes_eq {out : Except GitFault Branch} (move : r.MovesTo name fresh c t out c')
    (ht : g.Explains r.path notice t) : (g.replay r.path t).remotes = g.remotes := by
  cases move with
  | unlisted h => simp
  | moved ho ho' =>
      simp only [WorkingCopy.explains_cons, WorkingCopy.next_branch] at ht
      obtain ⟨-, hmove, -⟩ := ht
      simpa using (WorkingCopy.head_of_move (hmove.after?_next ho')).2
  | stuck ho h' => simp [h']

theorem MovesTo.head_eq {b : Branch} (move : r.MovesTo name fresh c t (.ok b) c')
    (ht : g.Explains r.path notice t) : (g.replay r.path t).head = some name := by
  cases move with
  | moved ho ho' =>
      simp only [WorkingCopy.explains_cons, WorkingCopy.next_branch] at ht
      obtain ⟨-, hmove, -⟩ := ht
      simpa using (WorkingCopy.head_of_move (hmove.after?_next ho')).1

theorem MovesTo.coherent {out : Except GitFault Branch} (move : r.MovesTo name fresh c t out c')
    (ht : g.Explains r.path notice t) (hc : g.Coherent notice c) :
    (g.replay r.path t).Coherent notice c' := by
  cases out with
  | ok b =>
      have hhead := move.head_eq ht
      cases move
      exact WorkingCopy.coherent_of_head hhead
  | error f =>
      cases move with
      | unlisted => simpa using hc
      -- where HEAD went is not known, and nothing is remembered
      | stuck => exact WorkingCopy.coherent_none

theorem ChecksOut.remotes_eq {out : Except GitFault Branch} (move : r.ChecksOut name fresh c t out c')
    (ht : g.Explains r.path notice t) : (g.replay r.path t).remotes = g.remotes := by
  cases move with
  | fresh move => exact move.remotes_eq ht
  | unknown look => rw [look.replay_eq]
  | already look => rw [look.replay_eq]
  | moved look _ move =>
      rw [WorkingCopy.explains_append, look.replay_eq] at ht
      rw [WorkingCopy.replay_append, look.replay_eq]
      exact move.remotes_eq ht.2

theorem ChecksOut.coherent {out : Except GitFault Branch} (hn : ∀ text, notice text → Printable text)
    (move : r.ChecksOut name fresh c t out c') (ht : g.Explains r.path notice t)
    (hc : g.Coherent notice c) : (g.replay r.path t).Coherent notice c' := by
  cases move with
  | fresh move => exact move.coherent ht hc
  | unknown look =>
      rw [look.replay_eq]
      exact look.coherent hn ht hc
  | already look =>
      rw [look.replay_eq]
      exact look.coherent hn ht hc
  | moved look _ move =>
      rw [WorkingCopy.explains_append, look.replay_eq] at ht
      rw [WorkingCopy.replay_append, look.replay_eq]
      exact move.coherent ht.2 (look.coherent hn ht.1 hc)

/-- A checkout that succeeds ends on the branch, unless its name is no name but a notice. -/
theorem ChecksOut.head_eq {b : Branch} (hn : ∀ text, notice text → Printable text)
    (move : r.ChecksOut name fresh c t (.ok b) c') (ht : g.Explains r.path notice t)
    (hc : g.Coherent notice c) :
    (g.replay r.path t).head = some name ∨ (g.replay r.path t).head = none ∧ notice name := by
  cases move with
  | fresh move => exact .inl (move.head_eq ht)
  -- nothing was run: what is remembered has the name, and it fits
  | already look hb =>
      have hc' := look.coherent hn ht hc
      rw [look.remembered] at hc'
      rw [look.replay_eq, ← hb]
      exact hc' b rfl
  | moved look _ move =>
      rw [WorkingCopy.explains_append, look.replay_eq] at ht
      rw [WorkingCopy.replay_append, look.replay_eq]
      exact .inl (move.head_eq ht.2)

/-! ## Commands that leave branches alone -/

theorem Resets.replay_eq {out : Except GitFault Unit} (clean : r.Resets c t out c') :
    g.replay r.path t = g := by
  cases clean <;> simp

theorem Rebases.replay_eq {base : String} {out : Except GitFault Bool}
    (rebase : r.Rebases base c t out c') : g.replay r.path t = g := by
  cases rebase <;> simp

theorem Asks.replay_eq {out : Except GitFault String} (ask : r.Asks c t out c') :
    g.replay r.path t = g := by
  cases ask with
  | answered hpre => cases hpre <;> simp
  | refused hpre => cases hpre <;> simp

theorem Surveys.replay_eq {working : String} {out : Except GitFault Survey}
    (survey : r.Surveys working c t out c') : g.replay r.path t = g := by
  cases survey with
  | unanswered ask => exact ask.replay_eq
  | unfound ask => simp [ask.replay_eq]
  | unlisted ask => simp [ask.replay_eq]
  | known ask => simp [ask.replay_eq]

/-- A survey finds out whether the remote has the branch. -/
theorem Surveys.pushed_iff {working : String} {known : Survey}
    (survey : r.Surveys working c t (.ok known) c') (ht : g.Explains r.path notice t) :
    known.pushed = true ↔ working ∈ g.remotes := by
  cases survey with
  | known ask _ _ ho' hp =>
      simp only [WorkingCopy.explains_append, WorkingCopy.explains_cons, ask.replay_eq,
        WorkingCopy.next_remote] at ht
      rw [← hp]
      exact (ht.2.2.1.of_ran ho').2.any_remote working

/-! ## Making a branch anew -/

/-- A branch that was made anew has a name, and HEAD is on it. -/
theorem Recreates.head_eq {working main base : String}
    (anew : r.Recreates working main base c t (.ok ()) c') (ht : g.Explains r.path notice t) :
    isName working = true ∧ (g.replay r.path t).head = some working := by
  cases anew with
  | created _ _ ho' look =>
      simp only [WorkingCopy.explains_append, WorkingCopy.explains_cons] at ht
      obtain ⟨hname, hhead, -⟩ := WorkingCopy.head_of_create (ht.1.2.2.1.after?_next ho')
      rw [WorkingCopy.replay_append, look.replay_eq]
      exact ⟨hname, hhead⟩

end Repository

end CodeSweep
