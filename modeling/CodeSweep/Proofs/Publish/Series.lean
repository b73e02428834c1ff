import CodeSweep.Proofs.Publish.Pipeline

/-! # Publishing a series

The results of several codemods are published one after the other. A name without a codemod is only
met when its turn comes,

    known ── known ── unknown ── ...
      │        │         └─ fails here; the rest is not looked at
      ▼        ▼
    published by then

so a series that fails is published up to the first unknown name (`publishAll_of_unknown`), and nothing
was said and nothing told by then only if there was nothing to publish and nothing to tell of
(`publishAll_all_or_before`). -/

namespace CodeSweep

variable {σ : Type}

namespace Session

variable {s s' s'' : Session σ} {said said' : List Exchange} {told told' : List Event}

/-- What is said and what is told from one session to another. -/
structure Extends (s : Session σ) (said : List Exchange) (told : List Event) (s' : Session σ) : Prop where
  transcript : s'.transcript = s.transcript ++ said
  events : s'.events = s.events ++ told

theorem Extends.refl (s : Session σ) : s.Extends [] [] s :=
  ⟨(List.append_nil _).symm, (List.append_nil _).symm⟩

theorem Extends.trans (h : s.Extends said told s') (h' : s'.Extends said' told' s'') :
    s.Extends (said ++ said') (told ++ told') s'' := by
  constructor
  · rw [h'.transcript, h.transcript, List.append_assoc]
  · rw [h'.events, h.events, List.append_assoc]

/-- A session is as it was only if nothing was said and nothing told. -/
theorem Extends.silent_iff (h : s.Extends said told s') :
    (s'.transcript = s.transcript ∧ s'.events = s.events) ↔ said = [] ∧ told = [] := by
  rw [h.transcript, h.events, List.append_right_eq_self, List.append_right_eq_self]

end Session

namespace Campaign

variable {w : World σ} {c : Campaign} {campaigns : List Campaign} {results : List FileResult}
  {copies : List Checkout} {roots : List Path} {s : Session σ} {name : String}

/-! ## Publishing once -/

theorem repositories_publishEach (roots : List Path) (copies : List Checkout) (s : Session σ) :
    (c.publishEach w roots copies s).1.2.map (·.repository) = copies.map (·.repository) := by
  induction copies generalizing s with
  | nil => rfl
  | cons copy rest ih =>
      cases hcopy : roots.any (·.same copy.repository.path) with
      | true =>
          rw [publishEach_cons_of_mem hcopy, List.map_cons, List.map_cons, repository_publishOne, ih]
      | false =>
          rw [publishEach_cons_of_not_mem hcopy, List.map_cons, List.map_cons, ih]

/-- Publishing leaves every working copy where it is. -/
theorem repositories_publish (results : List FileResult) (copies : List Checkout) (s : Session σ) :
    (c.publish w results copies s).1.2.map (·.repository) = copies.map (·.repository) := by
  by_cases hnone : changedRoots results = []
  · rw [publish_of_nil hnone]
  · rw [publish_of_ne_nil hnone]
    exact repositories_publishEach _ copies s

/-- There is nothing to publish and nothing to tell of: files were changed, but none of them in one of the
repositories. -/
structure Idle (results : List FileResult) (repositories : List Repository) : Prop where
  changed : results.any Codemod.isChange = true
  untouched : ∀ r ∈ repositories, hasChange results r = false

/-- Publishing is silent exactly when it is idle. -/
theorem publish_extends (w : World σ) (c : Campaign) (results : List FileResult) (copies : List Checkout)
    (s : Session σ) :
    ∃ said told, s.Extends said told (c.publish w results copies s).2 ∧
      (said = [] ∧ told = [] ↔ Idle results (copies.map (·.repository))) := by
  cases hany : results.any Codemod.isChange with
  | false =>
      rw [publish_of_unchanged hany]
      refine ⟨[], [.nothingTransformed c.codemod.name], ⟨(List.append_nil _).symm, rfl⟩, ?_⟩
      -- that there is nothing to publish is told
      constructor
      · rintro ⟨-, htold⟩
        cases htold
      · intro hidle
        rw [hidle.changed] at hany
        cases hany
  | true =>
      obtain ⟨accounts, hcopies, -, hleads, hevents, -⟩ :=
        publishEach_accounts w c (changedRoots results) copies s
      rw [publish_of_changed hany]
      refine ⟨accounts.flatMap (·.said), accounts.map (·.event), ⟨hleads.transcript, hevents⟩, ?_⟩
      have hnone : accounts = [] ↔ ∀ r ∈ copies.map (·.repository), hasChange results r = false := by
        rw [← List.map_eq_nil_iff (f := Account.copy), hcopies, touched_changedRoots,
          List.filter_eq_nil_iff, List.forall_mem_map]
        simp only [Bool.not_eq_true]
      constructor
      · rintro ⟨-, htold⟩
        exact ⟨hany, hnone.mp (List.map_eq_nil_iff.mp htold)⟩
      · intro hidle
        rw [hnone.mpr hidle.untouched]
        exact ⟨rfl, rfl⟩

/-! ## A series of results -/

/-- Whether there is a codemod of that name. -/
def known (campaigns : List Campaign) (name : String) : Bool := campaigns.any (·.codemod.name == name)

theorem find?_of_unknown (h : known campaigns name = false) :
    campaigns.find? (·.codemod.name == name) = none := by
  rw [List.find?_eq_none]
  rw [known, List.any_eq_false] at h
  exact h

theorem exists_find?_of_known (h : known campaigns name = true) :
    ∃ c, campaigns.find? (·.codemod.name == name) = some c := by
  rw [known, List.any_eq_true, ← List.find?_isSome] at h
  exact Option.isSome_iff_exists.mp h

section Steps

variable {rest : List (String × List FileResult)}

theorem publishAll_nil (copies : List Checkout) (s : Session σ) :
    publishAll w campaigns [] copies s = (.ok [], s) := rfl

theorem publishAll_cons_of_unknown (h : known campaigns name = false) :
    publishAll w campaigns ((name, results) :: rest) copies s =
      (.error (.invariant s!"no codemod named '{name}' to publish results for"), s) := by
  rw [publishAll, find?_of_unknown h]
  rfl

theorem publishAll_cons_of_find? (h : campaigns.find? (·.codemod.name == name) = some c) :
    publishAll w campaigns ((name, results) :: rest) copies s =
      let first := c.publish w results copies s
      let later := publishAll w campaigns rest first.1.2 first.2
      (later.1.map ((name, first.1.1) :: ·), later.2) := by
  simp only [publishAll, h, Session.bind_apply]
  cases (publishAll w campaigns rest (c.publish w results copies s).1.2 (c.publish w results copies s).2).1 <;>
    rfl

end Steps

/-- Where all names are known, the series is published: there is one entry for each, and it is silent
exactly when every part of it is idle. -/
theorem publishAll_of_known {series : List (String × List FileResult)}
    (h : ∀ entry ∈ series, known campaigns entry.1 = true) (copies : List Checkout) (s : Session σ) :
    ∃ published said told, (publishAll w campaigns series copies s).1 = .ok published ∧
      published.map (·.1) = series.map (·.1) ∧
      s.Extends said told (publishAll w campaigns series copies s).2 ∧
      (said = [] ∧ told = [] ↔ ∀ entry ∈ series, Idle entry.2 (copies.map (·.repository))) := by
  induction series generalizing copies s with
  | nil =>
      rw [publishAll_nil]
      exact ⟨[], [], [], rfl, rfl, .refl s, by simp⟩
  | cons entry rest ih =>
      obtain ⟨name, results⟩ := entry
      obtain ⟨hname, hrest⟩ := List.forall_mem_cons.mp h
      obtain ⟨c, hc⟩ := exists_find?_of_known hname
      obtain ⟨said, told, hfirst, hidle⟩ := publish_extends w c results copies s
      obtain ⟨published, said', told', hok, hnames, hlater, hidle'⟩ :=
        ih hrest (c.publish w results copies s).1.2 (c.publish w results copies s).2
      rw [repositories_publish] at hidle'
      rw [publishAll_cons_of_find? hc]
      dsimp only
      refine ⟨(name, (c.publish w results copies s).1.1) :: published, said ++ said', told ++ told',
        ?_, ?_, hfirst.trans hlater, ?_⟩
      · rw [hok]
        rfl
      · rw [List.map_cons, List.map_cons, hnames]
      · rw [List.forall_mem_cons, ← hidle, ← hidle', List.append_eq_nil_iff, List.append_eq_nil_iff]
        exact and_and_and_comm

/-- A series fails at its first unknown name, as if it had ended before that. -/
theorem publishAll_of_unknown {before after : List (String × List FileResult)}
    (h : ∀ entry ∈ before, known campaigns entry.1 = true) (hname : known campaigns name = false)
    (copies : List Checkout) (s : Session σ) :
    publishAll w campaigns (before ++ (name, results) :: after) copies s =
      (.error (.invariant s!"no codemod named '{name}' to publish results for"),
        (publishAll w campaigns before copies s).2) := by
  induction before generalizing copies s with
  | nil => exact publishAll_cons_of_unknown hname
  | cons entry before ih =>
      obtain ⟨first, files⟩ := entry
      obtain ⟨hfirst, hbefore⟩ := List.forall_mem_cons.mp h
      obtain ⟨c, hc⟩ := exists_find?_of_known hfirst
      rw [List.cons_append, publishAll_cons_of_find? hc, publishAll_cons_of_find? hc]
      dsimp only
      rw [ih hbefore]
      rfl

/-- **A series is published as far as its names are known.** Where all of them are, there is one entry for
each. Otherwise the series fails at the first name that is not; by then what comes before it is published,
and what came of that is not returned. So nothing was said and nothing told exactly when all that came
before was idle. -/
theorem publishAll_all_or_before (w : World σ) (campaigns : List Campaign)
    (series : List (String × List FileResult)) (copies : List Checkout) (s : Session σ) :
    ((∀ entry ∈ series, known campaigns entry.1 = true) ∧
      ∃ published, (publishAll w campaigns series copies s).1 = .ok published ∧
        published.map (·.1) = series.map (·.1)) ∨
    ∃ before name results after, series = before ++ (name, results) :: after ∧
      (∀ entry ∈ before, known campaigns entry.1 = true) ∧ known campaigns name = false ∧
      (publishAll w campaigns series copies s).1 =
        .error (.invariant s!"no codemod named '{name}' to publish results for") ∧
      (∃ published, publishAll w campaigns before copies s =
        (.ok published, (publishAll w campaigns series copies s).2)) ∧
      ((publishAll w campaigns series copies s).2.transcript = s.transcript ∧
          (publishAll w campaigns series copies s).2.events = s.events ↔
        ∀ entry ∈ before, Idle entry.2 (copies.map (·.repository))) := by
  cases hfind : series.find? fun entry => !known campaigns entry.1 with
  | none =>
      have hknown : ∀ entry ∈ series, known campaigns entry.1 = true := by
        simpa using List.find?_eq_none.mp hfind
      obtain ⟨published, -, -, hok, hnames, -, -⟩ := publishAll_of_known (w := w) hknown copies s
      exact .inl ⟨hknown, published, hok, hnames⟩
  | some entry =>
      obtain ⟨hname, before, after, rfl, hbefore⟩ := List.find?_eq_some_iff_append.mp hfind
      obtain ⟨name, results⟩ := entry
      have hknown : ∀ entry ∈ before, known campaigns entry.1 = true := by simpa using hbefore
      have hunknown : known campaigns name = false := by simpa using hname
      obtain ⟨published, said, told, hok, -, hextends, hidle⟩ := publishAll_of_known (w := w) hknown copies s
      refine .inr ⟨before, name, results, after, rfl, hknown, hunknown, ?_⟩
      rw [publishAll_of_unknown hknown hunknown]
      exact ⟨rfl, ⟨published, Prod.ext hok rfl⟩, hextends.silent_iff.trans hidle⟩

/-- What a codemod changed in a repository, and after it the results of one that there is not. -/
def stray : List (String × List FileResult) :=
  let greeted : FileDone :=
    { path := ⟨"/ws/web/a.txt"⟩, root := ⟨"/ws/web"⟩, old := "hi", content := "hi!", changed := true }
  [("greet", [.ok greeted]), ("zap", [])]

/-- The repository that was changed. -/
def changedCopy : Checkout where
  repository := { name := "web", address := "git@host:acme/web.git", path := ⟨"/ws/web"⟩, tags := [] }

/-- A series with those results, in a world in which all goes well. -/
def strayRun : Except Fault (List (String × List Publication)) × Session Unit :=
  publishAll Sweep.settled [Sweep.greetings] stray [changedCopy] { disk := {}, outside := () }

/-- It fails after a branch was pushed, a pull request opened and that told. -/
theorem publishAll_publishes_before_unknown :
    strayRun.1.isOk = false ∧
      gitCommands strayRun.2.transcript =
        [["add", "."], ["commit", "-m", "codemod: greet", "--no-verify"], ["remote"], ["branch"], ["add", "."],
          Repository.pushArgs "origin" "codemods/greet"] ∧
      strayRun.2.transcript.any (·.requests) = true ∧ strayRun.2.events.length = 1 := by
  decide +kernel

end Campaign

end CodeSweep
