import CodeSweep.Proofs.Publish.Conclusion
import CodeSweep.Proofs.Sweep.Interference

/-! # Turns

A sweep takes its repositories through three passes: they are cloned, prepared and published, one after
the other in each pass. What was asked and what was told are kept apart in a session, so that neither
shows what came before what. A `Turn` shows it: it is what one pass does for one working copy, from the
session it begins in to the session it ends in,

    before ──said──▶ after, where the working copy may be reported to be left out

and a pass is a row of turns, each beginning where the one before it ended (`Turn.row`).

What is expected of a single turn is `Turn.Sound`, and it is shown of one turn for each pass
(`clone_takes`, `prepare_takes`, `publish_takes`). From it follows that a row of turns accounts for all
that is said and reported in it (`row_accounts`). -/

namespace CodeSweep

variable {σ : Type}

/-! ## Working on one repository -/

namespace Session

variable {r : Repository} {s s' s'' : Session σ}

/-- The reports of repositories that are left out. -/
def reports (s : Session σ) : List Event := s.events.filter (·.skipped?.isSome)

/-- Nothing is said and nothing reported from one session to another. -/
structure Quietly (s s' : Session σ) : Prop where
  outside : s'.outside = s.outside
  transcript : s'.transcript = s.transcript
  reports : s'.reports = s.reports

theorem Quietly.of_eq (h : s' = s) : s.Quietly s' := by
  subst h
  exact ⟨rfl, rfl, rfl⟩

theorem Quietly.trans (h : s.Quietly s') (h' : s'.Quietly s'') : s.Quietly s'' :=
  ⟨h'.outside.trans h.outside, h'.transcript.trans h.transcript, h'.reports.trans h.reports⟩

theorem Quietly.tell {event : Event} (h : event.skipped? = none) : s.Quietly (tell event s).2 := by
  refine ⟨rfl, rfl, ?_⟩
  show (s.events ++ [event]).filter _ = s.events.filter _
  simp [h]

/-- One session leads to another by work on a repository: all that is said concerns it, and nothing is
reported to be left out. -/
structure WorksOn (r : Repository) (s s' : Session σ) : Prop where
  adds : s.Adds (·.concerns r = true) s'
  reports : s'.reports = s.reports

theorem WorksOn.refl (r : Repository) (s : Session σ) : s.WorksOn r s := ⟨.of_eq rfl, rfl⟩

theorem WorksOn.trans (h : s.WorksOn r s') (h' : s'.WorksOn r s'') : s.WorksOn r s'' :=
  ⟨h.adds.trans h'.adds, h'.reports.trans h.reports⟩

theorem worksOn_tell {event : Event} (h : event.skipped? = none) : s.WorksOn r (tell event s).2 :=
  ⟨.of_eq rfl, (Quietly.tell h).reports⟩

theorem worksOn_call (w : World σ) {command : Command} (h : r.owns command = true) :
    s.WorksOn r (w.call command s).2 :=
  ⟨adds_call w fun _ => h, rfl⟩

theorem worksOn_defaultBranch (w : World σ) (r : Repository) (s : Session σ) :
    s.WorksOn r (Hosting.defaultBranch w r.address r.path s).2 := by
  refine ⟨adds_defaultBranch w r (fun _ => beq_self_eq_true _) fun _ => Scene.owns_own r _ _, ?_⟩
  unfold Hosting.defaultBranch
  cases w.hosting <;> rfl

theorem worksOn_openRequest (w : World σ) (r : Repository) (request : PullRequest) (s : Session σ) :
    s.WorksOn r (r.openRequest w request s).2 := by
  refine ⟨adds_openRequest w r request (fun _ => beq_self_eq_true _) fun _ => Scene.owns_own r _ _, ?_⟩
  unfold Repository.openRequest Hosting.openRequest
  cases w.hosting <;> rfl

end Session

namespace Repository

variable {s : Session σ}

theorem served_of_worksOn (w : World σ) (r : Repository) :
    r.Served w w (Session.Beside (s.WorksOn r)) (fun _ => True) where
  routine _ _ := trivial
  git _ _ := Session.paired_beside fun _ hs => hs.trans (Session.worksOn_call w (Scene.owns_own r _ _))
  defaultBranch := Session.paired_beside fun s' hs => hs.trans (Session.worksOn_defaultBranch w r s')
  tell _ hevent := Session.paired_beside fun _ hs => hs.trans (Session.worksOn_tell hevent)

theorem housed_of_worksOn (w : World σ) (r : Repository) :
    r.Housed w w (Session.Beside (s.WorksOn r)) where
  present := by
    rintro s' _ ⟨rfl, -⟩
    rfl
  room := Session.paired_beside fun _ hs => hs.trans ⟨.of_eq rfl, rfl⟩
  clone := Session.paired_beside fun _ hs => hs.trans (Session.worksOn_call w (Scene.owns_cloneCommand r))
  tell := Session.paired_beside fun _ hs => hs.trans (Session.worksOn_tell rfl)

end Repository

/-! ## Asking for a pull request -/

namespace Repository

variable {w : World σ} {r : Repository}

/-- Asking the hosting platform for a pull request: one question, after one run of `gh` where it is asked
that way. -/
inductive Requests (r : Repository) (request : PullRequest) : List Exchange → Prop
  | service {answer} : Requests r request [.pullRequest r.address request answer]
  | gh {reply answer} :
      Requests r request
        [.command { cwd := r.path, program := "gh", args := Hosting.requestArgs request } reply,
          .pullRequest r.address request answer]

theorem Answers.requests {request : PullRequest} {t : List Exchange} {answer : Except Fault String}
    (h : r.Answers request t answer) : r.Requests request t := by
  cases h with
  | service => exact .service
  | gh => exact .gh

end Repository

/-- Publishing a repository: a commit, a push and a request, each after the one before it succeeded. `b` is
the branch that is remembered when it begins. -/
inductive Campaign.Releases (c : Campaign) (r : Repository) (b : Option Branch) : List Exchange → Prop
  | uncommitted {t f b'} (commit : r.Commits c.message b t (.error f) b') : Releases c r b t
  | unpushed {t₁ b' t₂ f b''} (commit : r.Commits c.message b t₁ (.ok ()) b')
      (push : r.Pushes b' t₂ (.error f) b'') : Releases c r b (t₁ ++ t₂)
  | requested {t₁ b' t₂ b'' t₃} (commit : r.Commits c.message b t₁ (.ok ()) b')
      (push : r.Pushes b' t₂ (.ok ()) b'') (request : r.Requests c.request t₃) :
      Releases c r b (t₁ ++ (t₂ ++ t₃))

/-! ## Turns and rows of them -/

/-- What a pass does for one working copy. `left` is what becomes of it. -/
structure Turn (σ : Type) where
  copy : Checkout
  left : Checkout
  /-- A working copy for which the turn fails is left out from then on. -/
  outcome : Except GitFault Unit
  before : Session σ
  after : Session σ

namespace Turn

variable {w : World σ} {turn : Turn σ} {turns : List (Turn σ)} {take : Checkout → Session σ → Turn σ}
  {copies : List Checkout} {s : Session σ}

/-- The repository whose turn it is. -/
def repository (turn : Turn σ) : Repository := turn.copy.repository

/-- What is said during a turn. -/
def said (turn : Turn σ) : List Exchange := turn.after.transcript.drop turn.before.transcript.length

/-- What is reported at the end of a turn. -/
def reported (turn : Turn σ) : List Event :=
  match turn.outcome with
  | .ok _ => []
  | .error fault => [.repositoryFailed fault]

/-- The working copies that are not left out. -/
def kept (turns : List (Turn σ)) : List Checkout := (turns.filter (·.outcome.isOk)).map (·.left)

theorem kept_cons_of_ok {u : Unit} (h : turn.outcome = .ok u) :
    kept (turn :: turns) = turn.left :: kept turns := by
  rw [kept, List.filter_cons_of_pos (by rw [h]; rfl)]
  rfl

theorem kept_cons_of_error {fault : GitFault} (h : turn.outcome = .error fault) :
    kept (turn :: turns) = kept turns := by
  rw [kept, List.filter_cons_of_neg (by rw [h]; exact Bool.false_ne_true)]
  rfl

theorem isOk_iff : turn.outcome.isOk = true ↔ turn.outcome = .ok () := by
  cases turn.outcome with
  | ok _ => exact ⟨fun _ => rfl, fun _ => rfl⟩
  | error fault => exact ⟨nofun, nofun⟩

theorem isOk_eq_false_iff : turn.outcome.isOk = false ↔ ∃ fault, turn.outcome = .error fault := by
  cases turn.outcome with
  | ok _ => exact ⟨nofun, nofun⟩
  | error fault => exact ⟨fun _ => ⟨fault, rfl⟩, fun _ => rfl⟩

theorem mem_kept {left : Checkout} :
    left ∈ kept turns ↔ ∃ turn ∈ turns, turn.outcome = .ok () ∧ turn.left = left := by
  simp only [kept, List.mem_map, List.mem_filter, isOk_iff, and_assoc]

/-- What every turn is like: what is said in it is what the world answered and concerns its repository,
and no other is reported. -/
structure Sound (w : World σ) (turn : Turn σ) : Prop where
  leads : turn.before.Leads w turn.said turn.after
  concerns : ∀ e ∈ turn.said, e.concerns turn.repository = true
  reports : turn.after.reports = turn.before.reports ++ turn.reported
  blame : ∀ fault, turn.outcome = .error fault → fault.address = turn.repository.address
  left : turn.left.repository = turn.repository

/-- The turns account for all that is said and reported from one session to another: each of them begins
where the one before it ended, but for what is neither. -/
inductive Accounts (w : World σ) : Session σ → List (Turn σ) → Session σ → Prop
  | nothing {s s'} (h : s.Quietly s') : Accounts w s [] s'
  | turn {s turn turns s'} (h : s.Quietly turn.before) (sound : turn.Sound w)
      (rest : Accounts w turn.after turns s') : Accounts w s (turn :: turns) s'

namespace Accounts

variable {turns' : List (Turn σ)} {s' s'' : Session σ}

theorem leads (h : Accounts w s turns s') : s.Leads w (turns.flatMap (·.said)) s' := by
  induction h with
  | nothing h => exact .nothing h.outside h.transcript
  | turn h sound _ ih => exact (Session.Leads.nothing h.outside h.transcript).trans (sound.leads.trans ih)

theorem reports (h : Accounts w s turns s') :
    s'.reports = s.reports ++ turns.flatMap (·.reported) := by
  induction h with
  | nothing h => simpa using h.reports
  | turn h sound _ ih => rw [ih, sound.reports, h.reports, List.append_assoc, List.flatMap_cons]

theorem after_quietly (hquiet : s.Quietly s') (h : Accounts w s' turns s'') : Accounts w s turns s'' := by
  cases h with
  | nothing h => exact .nothing (hquiet.trans h)
  | turn h sound rest => exact .turn (hquiet.trans h) sound rest

theorem trans (h : Accounts w s turns s') (h' : Accounts w s' turns' s'') :
    Accounts w s (turns ++ turns') s'' := by
  induction h with
  | nothing h => exact h'.after_quietly h
  | turn h sound _ ih => exact .turn h sound (ih h')

theorem tell {event : Event} (h : Accounts w s turns s') (hevent : event.skipped? = none) :
    Accounts w s turns (Session.tell event s').2 := by
  have htold := h.trans (.nothing (.tell hevent))
  rwa [List.append_nil] at htold

/-- At any turn, the turns before it account for what came before, and those after it for the rest. -/
theorem split (h : Accounts w s (turns ++ turn :: turns') s') :
    Accounts w s turns turn.before ∧ turn.Sound w ∧ Accounts w turn.after turns' s' := by
  induction turns generalizing s with
  | nil =>
      cases h with
      | turn h sound rest => exact ⟨.nothing h, sound, rest⟩
  | cons first turns ih =>
      cases h with
      | turn h sound rest =>
          obtain ⟨hearlier, hturn, hlater⟩ := ih rest
          exact ⟨.turn h sound hearlier, hturn, hlater⟩

end Accounts

theorem repositories_kept (hsound : ∀ turn ∈ turns, turn.Sound w) :
    ((kept turns).map (·.repository)).Sublist (turns.map (·.repository)) := by
  have hleft : (kept turns).map (·.repository) =
      (turns.filter (·.outcome.isOk)).map (·.repository) := by
    rw [kept, List.map_map]
    exact List.map_congr_left fun turn hturn => (hsound turn (List.mem_filter.mp hturn).1).left
  rw [hleft]
  exact List.filter_sublist.map _

/-- Where every repository has one turn, those whose turn failed are not kept. -/
theorem repository_ne_of_mem_kept (hsound : ∀ turn ∈ turns, turn.Sound w)
    (hnodup : (turns.map (·.repository)).Nodup) (hturn : turn ∈ turns) {fault : GitFault}
    (hfault : turn.outcome = .error fault) : turn.repository ∉ (kept turns).map (·.repository) := by
  intro hmem
  obtain ⟨left, hleft, heq⟩ := List.mem_map.mp hmem
  obtain ⟨other, hother, hok, rfl⟩ := mem_kept.mp hleft
  rw [(hsound other hother).left] at heq
  cases List.inj_on_of_nodup_map hnodup hother hturn heq
  rw [hok] at hfault
  cases hfault

/-- The turns of a repository that has one of them. -/
theorem filter_eq_singleton (hnodup : (turns.map (·.repository)).Nodup) (hturn : turn ∈ turns) :
    turns.filter (fun other => other.repository = turn.repository) = [turn] := by
  induction turns with
  | nil => cases hturn
  | cons first rest ih =>
      rw [List.map_cons, List.nodup_cons] at hnodup
      rcases List.mem_cons.mp hturn with rfl | hrest
      · have hnone : rest.filter (fun other => other.repository = turn.repository) = [] := by
          rw [List.filter_eq_nil_iff]
          intro other hother heq
          have hsame : other.repository = turn.repository := by simpa using heq
          exact hnodup.1 (hsame ▸ List.mem_map_of_mem hother)
        rw [List.filter_cons_of_pos (by simp), hnone]
      · have hne : first.repository ≠ turn.repository := by
          intro heq
          exact hnodup.1 (heq ▸ List.mem_map_of_mem hrest)
        rw [List.filter_cons_of_neg (by simpa using hne), ih hnodup.2 hrest]

/-- What comes of the turns of a repository is what belongs to it, where in no turn comes anything that
belongs to another repository. -/
theorem filter_own {β : Type} {f : Turn σ → List β} {p : β → Bool} {r : Repository}
    (hown : ∀ turn ∈ turns, ∀ b ∈ f turn, p b = decide (turn.repository = r)) :
    (turns.flatMap f).filter p = (turns.filter (fun turn => turn.repository = r)).flatMap f := by
  induction turns with
  | nil => rfl
  | cons turn rest ih =>
      have hrest := ih fun other hother => hown other (List.mem_cons_of_mem _ hother)
      have hfirst := hown turn List.mem_cons_self
      rw [List.flatMap_cons, List.filter_append, hrest]
      by_cases heq : turn.repository = r
      · have hall : (f turn).filter p = f turn :=
          List.filter_eq_self.mpr fun b hb => by simp [hfirst b hb, heq]
        rw [List.filter_cons_of_pos (by simpa using heq), hall, List.flatMap_cons]
      · have hnone : (f turn).filter p = [] :=
          List.filter_eq_nil_iff.mpr fun b hb => by simp [hfirst b hb, heq]
        rw [List.filter_cons_of_neg (by simpa using heq), hnone, List.nil_append]

/-- A way to take turns: it is the given working copy's turn, and begins in the given session. -/
structure Takes (w : World σ) (take : Checkout → Session σ → Turn σ) : Prop where
  copy : ∀ copy s, (take copy s).copy = copy
  before : ∀ copy s, (take copy s).before = s
  sound : ∀ copy s, (take copy s).Sound w

/-- Working copies take their turns, each beginning where the one before it ended. -/
def row (take : Checkout → Session σ → Turn σ) : List Checkout → Session σ → List (Turn σ)
  | [], _ => []
  | copy :: rest, s => take copy s :: row take rest (take copy s).after

/-- The session after a row of turns. -/
def rowEnd (take : Checkout → Session σ → Turn σ) : List Checkout → Session σ → Session σ
  | [], s => s
  | copy :: rest, s => rowEnd take rest (take copy s).after

theorem said_eq {t : List Exchange} (h : turn.before.Leads w t turn.after) : turn.said = t := by
  rw [said, h.transcript, List.drop_left]

theorem forall_said {P : Exchange → Prop} (h : turn.before.Adds P turn.after) : ∀ e ∈ turn.said, P e := by
  obtain ⟨t, ht, hall⟩ := h
  rw [said, ht, List.drop_left]
  exact hall

/-- Every turn of a row was taken. -/
theorem exists_of_mem_row (h : turn ∈ row take copies s) :
    ∃ copy ∈ copies, ∃ s', turn = take copy s' := by
  induction copies generalizing s with
  | nil => cases h
  | cons copy rest ih =>
      rcases List.mem_cons.mp h with rfl | h
      · exact ⟨copy, List.mem_cons_self, s, rfl⟩
      · obtain ⟨other, hother, s', rfl⟩ := ih h
        exact ⟨other, List.mem_cons_of_mem _ hother, s', rfl⟩

theorem Takes.sound_of_mem (h : Takes w take) (hturn : turn ∈ row take copies s) : turn.Sound w := by
  obtain ⟨copy, -, s', rfl⟩ := exists_of_mem_row hturn
  exact h.sound copy s'

theorem Takes.repositories_row (h : Takes w take) (copies : List Checkout) (s : Session σ) :
    (row take copies s).map (·.repository) = copies.map (·.repository) := by
  induction copies generalizing s with
  | nil => rfl
  | cons copy rest ih => rw [row, List.map_cons, List.map_cons, ih, repository, h.copy]

/-- Working copies that nothing is known of take one turn for each repository. -/
theorem Takes.repositories_row_fresh (h : Takes w take) (rs : List Repository) (s : Session σ) :
    (row take (rs.map fun r => { repository := r }) s).map (·.repository) = rs := by
  rw [h.repositories_row, List.map_map]
  exact List.map_id rs

/-- A row of turns accounts for what happens in it. -/
theorem Takes.row_accounts (h : Takes w take) (copies : List Checkout) (s : Session σ) :
    Accounts w s (row take copies s) (rowEnd take copies s) := by
  induction copies generalizing s with
  | nil => exact .nothing (.of_eq rfl)
  | cons copy rest ih => exact .turn (.of_eq (h.before copy s)) (h.sound copy s) (ih _)

end Turn

/-! ## The turns of a pass -/

namespace Session

/-- A session in which the outcome of an operation was reported, if it is a failure. -/
def report (s : Session σ) : Except GitFault Unit → Session σ
  | .ok _ => s
  | .error fault => (tell (.repositoryFailed fault) s).2

theorem Adds.report {P : Exchange → Prop} {s s' : Session σ} (h : s.Adds P s')
    (outcome : Except GitFault Unit) : s.Adds P (s'.report outcome) :=
  h.trans (.of_eq (by cases outcome <;> rfl))

theorem Leads.report {w : World σ} {s s' : Session σ} {t : List Exchange} (h : s.Leads w t s')
    (outcome : Except GitFault Unit) : s.Leads w t (s'.report outcome) := by
  cases outcome with
  | ok _ => exact h
  | error fault => exact ⟨h.transcript, h.conversation⟩

end Session

theorem Turn.reports_report (turn : Turn σ) (s : Session σ) :
    (s.report turn.outcome).reports = s.reports ++ turn.reported := by
  unfold Turn.reported
  cases turn.outcome with
  | ok _ => rw [List.append_nil]; rfl
  | error fault =>
      show (s.events ++ [Event.repositoryFailed fault]).filter _ = _
      rw [List.filter_append]
      rfl

namespace Checkout

variable {w : World σ} {op : Repository → Git σ Unit} {copy : Checkout} {s : Session σ}

/-- A working copy's turn at an operation. -/
def turn (op : Repository → Git σ Unit) (copy : Checkout) (s : Session σ) : Turn σ :=
  let ((outcome, left), ended) := copy.perform op s
  { copy, left, outcome, before := s, after := ended.report outcome }

/-- A pass is a row of turns, and keeps the working copies that are not left out. -/
theorem keepAll_eq_row (op : Repository → Git σ Unit) (copies : List Checkout) (s : Session σ) :
    keepAll op copies s =
      (Turn.kept (Turn.row (turn op) copies s), Turn.rowEnd (turn op) copies s) := by
  induction copies generalizing s with
  | nil => rfl
  | cons copy rest ih =>
      have hafter : (copy.turn op s).after = (copy.perform op s).2.report (copy.perform op s).1.1 := rfl
      rw [Turn.row, Turn.rowEnd, hafter]
      cases houtcome : (copy.perform op s).1.1 with
      | ok _ =>
          rw [keepAll_cons_of_ok houtcome, ih, Turn.kept_cons_of_ok houtcome]
          rfl
      | error fault =>
          rw [keepAll_cons_of_error houtcome, ih, Turn.kept_cons_of_error houtcome]
          rfl

/-- What an operation does is what is done in a turn at it. -/
theorem turn_sends (copy : Checkout) (op : Repository → Git σ Unit) {B : Behaviour Unit}
    (h : (op copy.repository).Sends w copy.current B) (s : Session σ) :
    s.Leads w (copy.turn op s).said (copy.turn op s).after ∧
      B (copy.turn op s).said (copy.turn op s).outcome (copy.turn op s).left.current := by
  obtain ⟨t, hleads, hb⟩ := copy.perform_sends op h s
  have hended : s.Leads w t (copy.turn op s).after := hleads.report _
  rw [Turn.said_eq hended]
  exact ⟨hended, hb⟩

theorem turn_sound {B : Behaviour Unit} (h : (op copy.repository).Sends w copy.current B)
    (hop : Git.Paired copy.repository (Session.Beside (s.WorksOn copy.repository)) (op copy.repository)
      (op copy.repository)) : (copy.turn op s).Sound w := by
  obtain ⟨-, hworks⟩ := (perform_paired hop s s ⟨rfl, .refl _ _⟩).2
  refine ⟨(copy.turn_sends op h s).1, Turn.forall_said (hworks.adds.report _), ?_, ?_, perform_gives copy op s⟩
  · have hreports := (copy.turn op s).reports_report (copy.perform op s).2
    rw [hworks.reports] at hreports
    exact hreports
  · intro fault hfault
    have hend := hop { current := copy.current, session := s } { current := copy.current, session := s }
      rfl ⟨rfl, .refl _ _⟩
    refine hend.blame fault ?_
    rw [turn, perform_eq] at hfault
    exact hfault

theorem clone_takes (w : World σ) : Turn.Takes w (turn (·.clone w)) where
  copy _ _ := rfl
  before _ _ := rfl
  sound copy _ := turn_sound Repository.clone_sends
    (Repository.clone_paired (Repository.housed_of_worksOn w copy.repository))

theorem prepare_takes (w : World σ) (working : String) : Turn.Takes w (turn (·.prepare w working)) where
  copy _ _ := rfl
  before _ _ := rfl
  sound copy _ := turn_sound (Repository.prepare_sends working)
    (Repository.prepare_paired (Repository.served_of_worksOn w copy.repository) working)

end Checkout

namespace Campaign

variable {w : World σ} {c : Campaign} {copy : Checkout} {s : Session σ}

/-- A working copy's turn at being published. That cannot leave it out. -/
def turn (w : World σ) (c : Campaign) (copy : Checkout) (s : Session σ) : Turn σ :=
  let ((_, left), ended) := c.publishOne w copy s
  { copy, left, outcome := .ok (), before := s, after := ended }

theorem touched_cons_of_mem {roots : List Path} {rest : List Checkout}
    (h : roots.any (·.same copy.repository.path) = true) :
    touched roots (copy :: rest) = copy :: touched roots rest :=
  List.filter_cons_of_pos h

theorem touched_cons_of_not_mem {roots : List Path} {rest : List Checkout}
    (h : roots.any (·.same copy.repository.path) = false) :
    touched roots (copy :: rest) = touched roots rest :=
  List.filter_cons_of_neg (by simp [h])

/-- Publishing is a row of turns of the working copies whose directory is among the roots. -/
theorem publishEach_eq_row (c : Campaign) (w : World σ) (roots : List Path) (copies : List Checkout)
    (s : Session σ) :
    (c.publishEach w roots copies s).2 = Turn.rowEnd (c.turn w) (touched roots copies) s := by
  induction copies generalizing s with
  | nil => rfl
  | cons copy rest ih =>
      cases hcopy : roots.any (·.same copy.repository.path) with
      | true =>
          rw [publishEach_cons_of_mem hcopy, touched_cons_of_mem hcopy]
          exact ih _
      | false =>
          rw [publishEach_cons_of_not_mem hcopy, touched_cons_of_not_mem hcopy]
          exact ih s

theorem Concludes.releases {r : Repository} {b : Option Branch} {t : List Exchange}
    {outcome : PublishOutcome} (h : c.Concludes r b t outcome) : c.Releases r b t := by
  cases h with
  | uncommitted commit => exact .uncommitted commit
  | unpushed commit push => exact .unpushed commit push
  | opened commit push request => exact .requested commit push request.requests
  | unopened commit push request => exact .requested commit push request.requests

theorem turn_releases (c : Campaign) (w : World σ) (copy : Checkout) (s : Session σ) :
    s.Leads w (c.turn w copy s).said (c.turn w copy s).after ∧
      c.Releases copy.repository copy.current (c.turn w copy s).said := by
  obtain ⟨t, hleads, concludes, -⟩ := publishOne_concludes w c copy s
  have hended : s.Leads w t (c.turn w copy s).after := hleads
  rw [Turn.said_eq hended]
  exact ⟨hended, concludes.releases⟩

theorem publish_takes (c : Campaign) (w : World σ) : Turn.Takes w (c.turn w) where
  copy _ _ := rfl
  before _ _ := rfl
  sound copy s := by
    have hrequest := Session.paired_beside (x := copy.repository.openRequest w c.request)
      (Q := s.WorksOn copy.repository) fun s' hs =>
        hs.trans (Session.worksOn_openRequest w copy.repository c.request s')
    obtain ⟨-, hworks⟩ := (publishOne_paired (Repository.served_of_worksOn w copy.repository) trivial
      (fun _ _ => trivial) hrequest s s ⟨rfl, .refl _ _⟩).2
    refine ⟨(c.turn_releases w copy s).1, Turn.forall_said hworks.adds, ?_, nofun, repository_publishOne⟩
    show (c.publishOne w copy s).2.reports = s.reports ++ []
    rw [hworks.reports, List.append_nil]

end Campaign

end CodeSweep
