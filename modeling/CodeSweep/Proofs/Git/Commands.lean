import CodeSweep.Proofs.Git.Behaviour

/-! # What a transcript tells

Three views of a list of exchanges: the git commands among them (`gitCommands`), the default branches
that the hosting platform reported (`defaultBranches`), and the remotes that git named
(`remoteNames`). For every behaviour they are bounded: an operation runs the commands of a short list,
and it learns the default branch and the remote at most once. -/

namespace CodeSweep

/-- The arguments of an exchange that is a git command. -/
def Exchange.git? : Exchange → Option (List String)
  | .command c _ => if c.program = "git" then some c.args else none
  | _ => none

@[simp] theorem Exchange.git?_ran {r : Repository} {args : List String} {reply : Reply} :
    (r.ran args reply).git? = some args := by
  simp [git?, Repository.ran]

/-- The default branch that an exchange reports. -/
def Exchange.defaultBranch? : Exchange → Option String
  | .defaultBranch _ (.ok name) => some name
  | _ => none

/-- The remote that an exchange names: the first one listed. -/
def Exchange.remote? : Exchange → Option String
  | .command c (.ok o) =>
    if c.program = "git" ∧ c.args = ["remote"] ∧ o.success = true then
      Repository.firstRemote? o.stdout
    else none
  | _ => none

/-- The git commands among some exchanges. -/
def gitCommands (t : List Exchange) : List (List String) := t.filterMap Exchange.git?

/-- The default branches that were reported. -/
def defaultBranches (t : List Exchange) : List String := t.filterMap Exchange.defaultBranch?

/-- The remotes that were named. -/
def remoteNames (t : List Exchange) : List String := t.filterMap Exchange.remote?

section Views

variable (t t' : List Exchange) {r : Repository} {args : List String} {reply : Reply}

@[simp, grind =] theorem gitCommands_nil : gitCommands [] = [] := rfl

@[simp, grind =] theorem gitCommands_append : gitCommands (t ++ t') = gitCommands t ++ gitCommands t' :=
  List.filterMap_append

@[simp, grind =] theorem gitCommands_ran :
    gitCommands (r.ran args reply :: t) = args :: gitCommands t := by
  simp [gitCommands]

@[simp] theorem gitCommands_git {cwd : Path} :
    gitCommands (.command { cwd, program := "git", args } reply :: t) = args :: gitCommands t := by
  simp [gitCommands, Exchange.git?]

@[simp] theorem gitCommands_gh {cwd : Path} :
    gitCommands (.command { cwd, program := "gh", args } reply :: t) = gitCommands t := by
  simp [gitCommands, Exchange.git?]

@[simp] theorem gitCommands_defaultBranch {address : String} {answer : Except Fault String} :
    gitCommands (.defaultBranch address answer :: t) = gitCommands t := rfl

theorem mem_gitCommands_of_ran (h : r.ran args reply ∈ t) : args ∈ gitCommands t :=
  List.mem_filterMap.mpr ⟨_, h, Exchange.git?_ran⟩

/-- A command that is not among those that were run was not run. -/
theorem ran_not_mem_of_subset {commands : List (List String)} (h : gitCommands t ⊆ commands)
    (hargs : args ∉ commands) : r.ran args reply ∉ t :=
  fun hran => hargs (h (mem_gitCommands_of_ran t hran))

@[simp] theorem defaultBranches_nil : defaultBranches [] = [] := rfl

@[simp] theorem defaultBranches_append :
    defaultBranches (t ++ t') = defaultBranches t ++ defaultBranches t' :=
  List.filterMap_append

@[simp] theorem defaultBranches_command {c : Command} :
    defaultBranches (.command c reply :: t) = defaultBranches t := rfl

@[simp] theorem defaultBranches_ran :
    defaultBranches (r.ran args reply :: t) = defaultBranches t := rfl

@[simp] theorem defaultBranches_ok {address name : String} :
    defaultBranches (.defaultBranch address (.ok name) :: t) = name :: defaultBranches t := rfl

@[simp] theorem defaultBranches_error {address : String} {cause : Fault} :
    defaultBranches (.defaultBranch address (.error cause) :: t) = defaultBranches t := rfl

@[simp] theorem remoteNames_nil : remoteNames [] = [] := rfl

@[simp] theorem remoteNames_append : remoteNames (t ++ t') = remoteNames t ++ remoteNames t' :=
  List.filterMap_append

@[simp] theorem remoteNames_gh {cwd : Path} :
    remoteNames (.command { cwd, program := "gh", args } reply :: t) = remoteNames t := by
  cases reply with
  | error => rfl
  | ok => simp [remoteNames, Exchange.remote?]

@[simp] theorem remoteNames_defaultBranch {address : String} {answer : Except Fault String} :
    remoteNames (.defaultBranch address answer :: t) = remoteNames t := rfl

theorem remoteNames_ran_remote {o : Output} {remote : String} (ho : o.success = true)
    (hr : Repository.firstRemote? o.stdout = some remote) :
    remoteNames (r.ran ["remote"] (.ok o) :: t) = remote :: remoteNames t := by
  simp [remoteNames, Exchange.remote?, Repository.ran, ho, hr]

@[simp] theorem remoteNames_ran (h : args ≠ ["remote"]) :
    remoteNames (r.ran args reply :: t) = remoteNames t := by
  cases reply with
  | error => rfl
  | ok => simp [remoteNames, Exchange.remote?, Repository.ran, h]

end Views

/-! ## Every moment of a transcript -/

/-- Of every exchange, `P` holds of what came before it, of itself, and of what came after it. -/
def Throughout (P : List Exchange → Exchange → List Exchange → Prop) (t : List Exchange) : Prop :=
  ∀ before e after, t = before ++ e :: after → P before e after

section Throughout

variable {P : List Exchange → Exchange → List Exchange → Prop} {t t' : List Exchange}

@[simp] theorem throughout_nil : Throughout P [] := by
  intro before e after h
  simp at h

@[simp] theorem throughout_cons {e : Exchange} :
    Throughout P (e :: t) ↔ P [] e t ∧ Throughout (fun before => P (e :: before)) t := by
  constructor
  · intro h
    exact ⟨h [] e t rfl, fun before e' after ht => h (e :: before) e' after (by rw [ht]; rfl)⟩
  -- the exchange is the first one, or it lies in the rest
  · rintro ⟨hhead, htail⟩ (_ | ⟨e', before⟩) e'' after ht
    · obtain ⟨rfl, rfl⟩ := List.cons.inj ht
      exact hhead
    · obtain ⟨rfl, hrest⟩ := List.cons.inj ht
      exact htail before e'' after hrest

theorem throughout_append :
    Throughout P (t ++ t') ↔ Throughout (fun before e after => P before e (after ++ t')) t ∧
      Throughout (fun before => P (t ++ before)) t' := by
  induction t generalizing P with
  | nil => simp
  | cons e t ih => simp [ih, and_assoc]

/-- Nothing has to be checked where no command is of the kind that is to be checked. -/
theorem throughout_of_commands {Q : List String → Prop}
    {P : List String → List Exchange → Exchange → List Exchange → Prop}
    (h : ∀ args ∈ gitCommands t, ¬ Q args) :
    Throughout (fun before e after => ∀ args, e.git? = some args → Q args → P args before e after)
      t := by
  rintro before e after rfl args hargs hq
  exact absurd hq (h args (List.mem_filterMap.mpr ⟨e, by simp, hargs⟩))

end Throughout

namespace Repository

/-! ## The commands of each operation -/

/-- The commands that check a branch out. -/
def checkoutCommands (name : String) : List (List String) :=
  [["branch"], ["checkout", name], ["checkout", "-b", name]]

/-- The commands that clean a working copy. -/
def cleanCommands : List (List String) := [["add", "."], ["reset", "--hard"], ["fetch"]]

/-- The commands that find out what has to be known. -/
def surveyCommands : List (List String) := [["remote"], ["ls-remote", "--heads"]]

/-- The commands that rebase. -/
def rebaseCommands (base : String) : List (List String) := [["rebase", base], ["rebase", "--abort"]]

/-- The commands that make a branch anew. -/
def recreateCommands (working base : String) : List (List String) :=
  [["checkout", "--detach", base], ["branch", "-D", working], ["checkout", "-b", working, base],
    ["branch"]]

/-- The commands that bring a branch up to date by a rebase, by what the survey finds. -/
def calmCommands (working : String) : Option Survey → List (List String)
  | none => surveyCommands
  | some known => surveyCommands ++ checkoutCommands working ++ rebaseCommands known.base

/-- The commands that bring a branch up to date, by what the survey finds. -/
def updateCommands (working : String) : Option Survey → List (List String)
  | none => surveyCommands
  | some known => calmCommands working (some known) ++ recreateCommands working known.base

theorem calmCommands_subset (working : String) (known? : Option Survey) :
    calmCommands working known? ⊆ updateCommands working known? := by
  cases known? with
  | none => exact List.Subset.refl _
  | some known => exact List.subset_append_left _ _

/-- The commands that clean a working copy and bring a branch up to date. -/
def resetCommands (working : String) (known? : Option Survey) : List (List String) :=
  cleanCommands ++ updateCommands working known?

/-- The commands that come before files are transformed. -/
def prepareCommands (working : String) (known? : Option Survey) : List (List String) :=
  checkoutCommands working ++ resetCommands working known?

/-- Nothing is learned from some exchanges. -/
structure Silent (t : List Exchange) : Prop where
  main : defaultBranches t = []
  remote : remoteNames t = []

/-- From some exchanges it is learned which default branch and which remote a survey has, each once
and nothing else. -/
structure Learned (known : Survey) (t : List Exchange) : Prop where
  main : defaultBranches t = [known.main]
  remote : remoteNames t = [known.remote]

/-- The commands among some exchanges are those that go with what is learned from them. -/
def RunsOnly (commands : Option Survey → List (List String)) (t : List Exchange) : Prop :=
  ∃ known?, (∀ known ∈ known?, Learned known t) ∧ gitCommands t ⊆ commands known?

theorem Learned.runsOnly {commands : Option Survey → List (List String)} {known : Survey}
    {t : List Exchange} (h : Learned known t) (hsub : gitCommands t ⊆ commands (some known)) :
    RunsOnly commands t := by
  refine ⟨some known, ?_, hsub⟩
  rintro _ ⟨⟩
  exact h

theorem Silent.append {t t' : List Exchange} (h : Silent t) (h' : Silent t') : Silent (t ++ t') :=
  ⟨by simp [h.main, h'.main], by simp [h.remote, h'.remote]⟩

theorem Silent.of_append {t t' : List Exchange} (h : Silent (t ++ t')) : Silent t :=
  ⟨(List.append_eq_nil_iff.mp (defaultBranches_append t t' ▸ h.main)).1,
    (List.append_eq_nil_iff.mp (remoteNames_append t t' ▸ h.remote)).1⟩

theorem Learned.append_silent {known : Survey} {t t' : List Exchange} (h : Learned known t)
    (h' : Silent t') : Learned known (t ++ t') :=
  ⟨by simp [h.main, h'.main], by simp [h.remote, h'.remote]⟩

theorem Silent.append_learned {known : Survey} {t t' : List Exchange} (h : Silent t)
    (h' : Learned known t') : Learned known (t ++ t') :=
  ⟨by simp [h.main, h'.main], by simp [h.remote, h'.remote]⟩

variable {r : Repository} {c c' : Option Branch} {t : List Exchange}

theorem Selects.silent {out : Except GitFault (Option Branch)} (look : r.Selects c t out c') :
    Silent t := by
  cases look <;> constructor <;> simp

theorem Selects.commands {out : Except GitFault (Option Branch)} (look : r.Selects c t out c') :
    gitCommands t ⊆ [["branch"]] := by
  cases look <;> simp

variable {name : String} {fresh : Bool}

theorem moveArgs_mem (name : String) (existing : Bool) :
    moveArgs name existing ∈ checkoutCommands name := by
  cases existing <;> simp [moveArgs, checkoutCommands]

theorem moveArgs_ne_remote (name : String) (existing : Bool) : moveArgs name existing ≠ ["remote"] := by
  cases existing <;> simp [moveArgs]

theorem MovesTo.silent {out : Except GitFault Branch} (move : r.MovesTo name fresh c t out c') :
    Silent t := by
  cases move <;> constructor <;> simp [moveArgs_ne_remote]

theorem MovesTo.commands {out : Except GitFault Branch} (move : r.MovesTo name fresh c t out c') :
    gitCommands t ⊆ checkoutCommands name := by
  have hbranch : ["branch"] ∈ checkoutCommands name := by simp [checkoutCommands]
  cases move <;> simp [hbranch, moveArgs_mem]

theorem ChecksOut.silent {out : Except GitFault Branch} (move : r.ChecksOut name fresh c t out c') :
    Silent t := by
  cases move with
  | fresh move => exact move.silent
  | unknown look => exact look.silent
  | already look => exact look.silent
  | moved look _ move => exact look.silent.append move.silent

theorem ChecksOut.commands {out : Except GitFault Branch} (move : r.ChecksOut name fresh c t out c') :
    gitCommands t ⊆ checkoutCommands name := by
  have hlook : [["branch"]] ⊆ checkoutCommands name := by simp [checkoutCommands]
  cases move with
  | fresh move => exact move.commands
  | unknown look => exact List.Subset.trans look.commands hlook
  | already look => exact List.Subset.trans look.commands hlook
  | moved look _ move =>
      rw [gitCommands_append]
      exact List.append_subset.mpr ⟨List.Subset.trans look.commands hlook, move.commands⟩

theorem Resets.silent {out : Except GitFault Unit} (clean : r.Resets c t out c') : Silent t := by
  cases clean <;> constructor <;> simp

theorem Resets.commands {out : Except GitFault Unit} (clean : r.Resets c t out c') :
    gitCommands t ⊆ cleanCommands := by
  cases clean <;> simp [cleanCommands]

theorem Rebases.silent {base : String} {out : Except GitFault Bool}
    (rebase : r.Rebases base c t out c') : Silent t := by
  cases rebase <;> constructor <;> simp

theorem Rebases.commands {base : String} {out : Except GitFault Bool}
    (rebase : r.Rebases base c t out c') : gitCommands t ⊆ rebaseCommands base := by
  cases rebase <;> simp [rebaseCommands]

theorem Recreates.silent {working main base : String} {out : Except GitFault Unit}
    (anew : r.Recreates working main base c t out c') : Silent t := by
  cases anew with
  | refused => exact ⟨rfl, rfl⟩
  | attached => constructor <;> simp
  | lost => constructor <;> simp
  | created _ _ _ look => exact .append (by constructor <;> simp) look.silent

theorem Recreates.commands {working main base : String} {out : Except GitFault Unit}
    (anew : r.Recreates working main base c t out c') :
    gitCommands t ⊆ recreateCommands working base := by
  cases anew with
  | refused => simp
  | attached => simp [recreateCommands]
  | lost => simp [recreateCommands]
  | created _ _ _ look =>
      have hlook : [["branch"]] ⊆ recreateCommands working base := by simp [recreateCommands]
      rw [gitCommands_append]
      exact List.append_subset.mpr
        ⟨by simp [recreateCommands], List.Subset.trans look.commands hlook⟩

theorem Asks.commands {out : Except GitFault String} (ask : r.Asks c t out c') :
    gitCommands t = [] := by
  cases ask with
  | answered hpre => cases hpre <;> simp
  | refused hpre => cases hpre <;> simp

theorem Asks.remoteNames_eq {out : Except GitFault String} (ask : r.Asks c t out c') :
    remoteNames t = [] := by
  cases ask with
  | answered hpre => cases hpre <;> simp
  | refused hpre => cases hpre <;> simp

theorem Asks.defaultBranches_eq {main : String} (ask : r.Asks c t (.ok main) c') :
    defaultBranches t = [main] := by
  cases ask with
  | answered hpre => cases hpre <;> simp

theorem Surveys.commands {working : String} {out : Except GitFault Survey}
    (survey : r.Surveys working c t out c') : gitCommands t ⊆ surveyCommands := by
  cases survey with
  | unanswered ask => simp [ask.commands]
  | unfound ask => simp [ask.commands, surveyCommands]
  | unlisted ask => simp [ask.commands, surveyCommands]
  | known ask => simp [ask.commands, surveyCommands]

theorem Surveys.learned {working : String} {known : Survey}
    (survey : r.Surveys working c t (.ok known) c') : Learned known t := by
  cases survey with
  | known ask ho hr =>
      constructor
      · simp [ask.defaultBranches_eq]
      · simp [ask.remoteNames_eq, remoteNames_ran_remote _ ho hr]

/-- What the survey finds out stays known: nothing after it asks again. -/
theorem learned_of_rebase {working : String} {known : Survey} {t₁ t₂ t₃ : List Exchange}
    {moved : Except GitFault Branch} {out : Except GitFault Bool} {c'' : Option Branch}
    (survey : r.Surveys working c t₁ (.ok known) c)
    (move : r.ChecksOut working false c t₂ moved c') (rebase : r.Rebases known.base c' t₃ out c'') :
    Learned known (t₁ ++ (t₂ ++ t₃)) :=
  survey.learned.append_silent (move.silent.append rebase.silent)

theorem learned_of_anew {working : String} {known : Survey} {t₁ t₂ t₃ t₄ : List Exchange}
    {moved : Except GitFault Branch} {rebased : Except GitFault Bool} {out : Except GitFault Unit}
    {c₁ c₂ c₃ : Option Branch} (survey : r.Surveys working c t₁ (.ok known) c)
    (move : r.ChecksOut working false c t₂ moved c₁) (rebase : r.Rebases known.base c₁ t₃ rebased c₂)
    (anew : r.Recreates working known.main known.base c₂ t₄ out c₃) :
    Learned known (t₁ ++ (t₂ ++ (t₃ ++ t₄))) :=
  survey.learned.append_silent (move.silent.append (rebase.silent.append anew.silent))

theorem calm_of_checkout {working : String} {known : Survey} {t₁ t₂ : List Exchange}
    {out : Except GitFault Branch} (survey : r.Surveys working c t₁ (.ok known) c)
    (move : r.ChecksOut working false c t₂ out c') :
    gitCommands (t₁ ++ t₂) ⊆ calmCommands working (some known) := by
  have hsurvey := survey.commands
  have hmove := move.commands
  grind [calmCommands]

theorem calm_of_rebase {working : String} {known : Survey} {t₁ t₂ t₃ : List Exchange}
    {moved : Except GitFault Branch} {out : Except GitFault Bool} {c'' : Option Branch}
    (survey : r.Surveys working c t₁ (.ok known) c)
    (move : r.ChecksOut working false c t₂ moved c') (rebase : r.Rebases known.base c' t₃ out c'') :
    gitCommands (t₁ ++ (t₂ ++ t₃)) ⊆ calmCommands working (some known) := by
  have hsurvey := survey.commands
  have hmove := move.commands
  have hrebase := rebase.commands
  grind [calmCommands]

/-- Bringing a branch up to date is done by a rebase, unless in the end the branch is made anew. -/
theorem Updates.calm_or_anew {working : String} {out : Except GitFault Unit}
    (update : r.Updates working c t out c') :
    RunsOnly (calmCommands working) t ∨ ∃ t₁ known t₂ b c₁ t₃ rebased t₄, t = t₁ ++ (t₂ ++ t₃) ++ t₄ ∧
      r.Surveys working c t₁ (.ok known) c ∧ r.ChecksOut working false c t₂ (.ok b) c₁ ∧
      r.Rebases known.base c₁ t₃ (.ok rebased) c₁ ∧ (rebased && known.pushed) = false ∧
      r.Recreates working known.main known.base c₁ t₄ out c' := by
  cases update with
  | unknown survey => exact .inl ⟨none, by simp, survey.commands⟩
  | stuck survey move =>
      have hlearned := survey.learned.append_silent move.silent
      exact .inl (hlearned.runsOnly (calm_of_checkout survey move))
  | unstarted survey move rebase =>
      have hlearned := learned_of_rebase survey move rebase
      exact .inl (hlearned.runsOnly (calm_of_rebase survey move rebase))
  | rebased survey move rebase =>
      have hlearned := learned_of_rebase survey move rebase
      exact .inl (hlearned.runsOnly (calm_of_rebase survey move rebase))
  -- only here is more than the calm commands run, and only after all of them
  | recreated survey move rebase hp anew =>
      exact .inr ⟨_, _, _, _, _, _, _, _, by simp, survey, move, rebase, hp, anew⟩

/-- Bringing a branch up to date runs what its survey lets it run. -/
theorem Updates.commands {working : String} {out : Except GitFault Unit}
    (update : r.Updates working c t out c') : RunsOnly (updateCommands working) t := by
  rcases update.calm_or_anew with ⟨known?, hknown, hcalm⟩ |
    ⟨t₁, known, t₂, b, c₁, t₃, rebased, t₄, rfl, survey, move, rebase, -, anew⟩
  · exact ⟨known?, hknown, List.Subset.trans hcalm (calmCommands_subset working known?)⟩
  · have hlearned := learned_of_rebase survey move rebase
    refine (hlearned.append_silent anew.silent).runsOnly ?_
    rw [gitCommands_append]
    exact List.append_subset.mpr
      ⟨List.subset_append_of_subset_left _ (calm_of_rebase survey move rebase),
        List.subset_append_of_subset_right _ anew.commands⟩

theorem ResetsTo.commands {working : String} {out : Except GitFault Unit}
    (reset : r.ResetsTo working c t out c') : RunsOnly (resetCommands working) t := by
  cases reset with
  | dirty clean =>
      refine ⟨none, by simp, ?_⟩
      have hclean := clean.commands
      grind [resetCommands]
  | cleaned clean update =>
      obtain ⟨known?, hknown, hupdate⟩ := update.commands
      refine ⟨known?, fun known h => clean.silent.append_learned (hknown known h), ?_⟩
      have hclean := clean.commands
      grind [resetCommands]

theorem Prepares.commands {working : String} {out : Except GitFault Unit}
    (prepare : r.Prepares working c t out c') : RunsOnly (prepareCommands working) t := by
  cases prepare with
  | stuck move =>
      refine ⟨none, by simp, ?_⟩
      have hmove := move.commands
      grind [prepareCommands]
  | moved move reset =>
      obtain ⟨known?, hknown, hreset⟩ := reset.commands
      refine ⟨known?, fun known h => move.silent.append_learned (hknown known h), ?_⟩
      have hmove := move.commands
      grind [prepareCommands]

end Repository

end CodeSweep
