import CodeSweep.Proofs.Git.Run

/-! # Operations that tell nothing

Some operations on a repository tell what they do while they do it; to commit and to push are not among
them. Whether they succeed or not, the events of the session stay as they are (`commit_mute`,
`push_mute`), so whoever runs them has to tell. -/

namespace CodeSweep

variable {σ α β : Type}

namespace Git

variable {x : Git σ α}

/-- An operation tells nothing, however it ends. -/
def Mute (x : Git σ α) : Prop := ∀ d, (x.finish d).2.session.events = d.session.events

theorem mute_pure (a : α) : (pure a : Git σ α).Mute := fun _ => rfl

theorem mute_throw (f : GitFault) : (throw f : Git σ α).Mute := fun _ => rfl

theorem mute_get : (get : Git σ (Desk σ)).Mute := fun _ => rfl

theorem mute_remember (branch : Option Branch) : (remember branch : Git σ Unit).Mute := fun _ => rfl

theorem mute_lift {y : StateM (Session σ) α} (h : ∀ s, (y s).2.events = s.events) : (lift y).Mute :=
  fun d => h d.session

/-- Two mute operations in a row are mute, whether or not the second one is reached. -/
theorem Mute.bind {f : α → Git σ β} (hx : x.Mute) (hf : ∀ a, (f a).Mute) : (x >>= f).Mute := by
  intro d
  have hfirst := hx d
  rw [finish_bind]
  rcases hxd : x.finish d with ⟨out, d'⟩
  rw [hxd] at hfirst
  cases out with
  | ok a => exact (hf a d').trans hfirst
  | error fault => exact hfirst

theorem Mute.mapFault {g : GitFault → GitFault} (hx : x.Mute) : (x.mapFault g).Mute := by
  intro d
  rw [finish_mapFault]
  exact hx d

end Git

namespace Repository

variable {w : World σ} {r : Repository}

theorem gitOutput_mute (args : List String) : (r.gitOutput w args).Mute := by
  refine (Git.mute_lift fun s => rfl).bind fun reply => ?_
  cases reply with
  | ok output => exact Git.mute_pure output
  | error cause => exact Git.mute_throw _

theorem git_mute (args : List String) : (r.git w args).Mute := by
  refine (gitOutput_mute args).bind fun output => ?_
  split
  · exact Git.mute_pure output
  · exact Git.mute_throw _

theorem remoteName_mute : (r.remoteName w).Mute :=
  (git_mute _).bind fun _ => Git.mute_pure _

theorem selectedBranch_mute : (r.selectedBranch w).Mute := by
  refine Git.mute_get.bind fun d => ?_
  cases d.current with
  | some branch => exact Git.mute_pure _
  | none =>
      have hlook : (r.branches w).Mute := (git_mute _).bind fun _ => Git.mute_pure _
      exact hlook.bind fun _ => (Git.mute_remember _).bind fun _ => Git.mute_pure _

theorem mainBranchName_mute : (r.mainBranchName w).Mute := by
  have hask : ∀ s, (Hosting.defaultBranch w r.address r.path s).2.events = s.events := by
    intro s
    unfold Hosting.defaultBranch
    cases w.hosting <;> rfl
  refine (Git.mute_lift hask).bind fun answer => ?_
  cases answer with
  | ok name => exact Git.mute_pure name
  | error cause => exact Git.mute_throw _

theorem commit_mute (message : String) : (r.commit w message).Mute := by
  refine (git_mute _).mapFault.bind fun _ => ?_
  refine (gitOutput_mute _).mapFault.bind fun output => ?_
  split
  · exact Git.mute_pure ()
  · exact Git.mute_throw _

theorem push_mute : (r.push w).Mute := by
  refine remoteName_mute.mapFault.bind fun remote => ?_
  refine selectedBranch_mute.mapFault.bind fun current => ?_
  match remote, current with
  | none, _ => exact Git.mute_throw _
  | some _, none => exact Git.mute_throw _
  | some remote, some current =>
      refine mainBranchName_mute.bind fun main => ?_
      have hsend : (do
          let _ ← (r.git w ["add", "."]).mapFault (r.because (.push "failed to stage changes"))
          let _ ← (r.git w ["push", "--force", "--no-verify", "--set-upstream", remote, current.name]).mapFault
            (r.because (.push "push rejected")) : Git σ Unit).Mute :=
        (git_mute _).mapFault.bind fun _ => (git_mute _).mapFault.bind fun _ => Git.mute_pure ()
      dsimp only
      split
      · exact (Git.mute_throw _).bind fun _ => hsend
      · exact hsend

/-- Asking for a pull request tells nothing either. -/
theorem events_openRequest (request : PullRequest) (s : Session σ) :
    (r.openRequest w request s).2.events = s.events := by
  unfold openRequest Hosting.openRequest
  cases w.hosting <;> rfl

end Repository

end CodeSweep
