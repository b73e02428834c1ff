import CodeSweep.Git.Repository

/-! # What an operation does, seen from outside

An operation on a repository talks to the world, and every question it asks is noted with its
answer. Seen from outside it is therefore three things: the exchanges it adds to the transcript, how
it ends, and the branch it remembers afterwards. `Behaviour` is a set of such triples, and
`x.Sends w d B` says that running `x` at the desk `d` stays inside `B`:

    d.session ──exchanges──▶ session, with an ending and a remembered branch

The exchanges are moreover a `Conversation`: the answers of the world `w`, one after another, each
given in the state the one before it left. The rules below follow the ways operations are put
together, so that no later proof has to look at how an operation is represented. -/

namespace CodeSweep

variable {σ α β : Type}

/-! ## Conversations -/

/-- How the outside may move when it takes part in an exchange. A program may find any disk. The
`gh` program is asked by a command of its own, so that noting its answer moves nothing. -/
def World.Moves (w : World σ) : Exchange → σ → σ → Prop
  | .command c reply, s, s' => ∃ disk disk', w.run c (disk, s) = (reply, disk', s')
  | .defaultBranch address answer, s, s' =>
    match w.hosting with
    | .gh => s' = s
    | .service ask _ => ask address s = (answer, s')
  | .pullRequest address request answer, s, s' =>
    match w.hosting with
    | .gh => s' = s
    | .service _ ask => ask address request s = (answer, s')

/-- The exchanges lead the outside from one state to another. -/
inductive Conversation (w : World σ) : σ → List Exchange → σ → Prop
  | nil {s} : Conversation w s [] s
  | cons {e s s' s'' t} : w.Moves e s s' → Conversation w s' t s'' → Conversation w s (e :: t) s''

theorem Conversation.single {w : World σ} {e : Exchange} {s s' : σ} (h : w.Moves e s s') :
    Conversation w s [e] s' :=
  .cons h .nil

theorem Conversation.append {w : World σ} {s s' s'' : σ} {t t' : List Exchange}
    (h : Conversation w s t s') (h' : Conversation w s' t' s'') :
    Conversation w s (t ++ t') s'' := by
  induction h with
  | nil => exact h'
  | cons hm _ ih => exact .cons hm (ih h')

/-- The exchanges lead from one session to another: they are noted, and they are what the world
answered. -/
structure Session.Leads (w : World σ) (s : Session σ) (t : List Exchange) (s' : Session σ) : Prop where
  transcript : s'.transcript = s.transcript ++ t
  conversation : Conversation w s.outside t s'.outside

namespace Session.Leads

variable {w : World σ} {s s' s'' : Session σ} {t t' : List Exchange}

/-- Nothing is said where neither the outside nor the transcript changes. -/
theorem nothing (hout : s'.outside = s.outside) (htr : s'.transcript = s.transcript) :
    s.Leads w [] s' := by
  refine ⟨by rw [htr, List.append_nil], ?_⟩
  rw [hout]
  exact .nil

theorem trans (h : s.Leads w t s') (h' : s'.Leads w t' s'') : s.Leads w (t ++ t') s'' := by
  refine ⟨?_, h.conversation.append h'.conversation⟩
  rw [h'.transcript, h.transcript, List.append_assoc]

/-- A command is one exchange. -/
theorem call (command : Command) :
    s.Leads w [.command command (w.call command s).1] (w.call command s).2 :=
  ⟨rfl, .single ⟨s.disk, _, rfl⟩⟩

end Session.Leads

/-! ## Endings -/

namespace Git

/-- How an operation ends: with a value or a fault, at the desk it leaves behind. -/
def finish (x : Git σ α) (d : Desk σ) : Except GitFault α × Desk σ :=
  match x d with
  | .ok a d' => (.ok a, d')
  | .error f d' => (.error f, d')

theorem finish_bind (x : Git σ α) (f : α → Git σ β) (d : Desk σ) :
    (x >>= f).finish d =
      match x.finish d with
      | (.ok a, d') => (f a).finish d'
      | (.error e, d') => (.error e, d') := by
  show finish (EStateM.bind x f) d = _
  unfold finish EStateM.bind
  cases x d <;> rfl

theorem finish_mapFault (g : GitFault → GitFault) (x : Git σ α) (d : Desk σ) :
    (x.mapFault g).finish d = ((x.finish d).1.mapError g, (x.finish d).2) := by
  unfold finish mapFault
  cases x d <;> rfl

theorem finish_attempt (x : Git σ α) (d : Desk σ) :
    x.attempt.finish d = (.ok (x.finish d).1, (x.finish d).2) := by
  unfold finish attempt
  cases x d <;> rfl

end Git

/-! ## Behaviours -/

/-- A set of ways to run: the exchanges made, the ending, and the branch remembered then. -/
abbrev Behaviour (α : Type) := List Exchange → Except GitFault α → Option Branch → Prop

namespace Git

/-- Running `x` at a desk where `c` is remembered leads to another session by exchanges, and what it
does is in `B`. -/
def Sends (w : World σ) (x : Git σ α) (c : Option Branch) (B : Behaviour α) : Prop :=
  ∀ d : Desk σ, d.current = c →
    ∃ t, d.session.Leads w t (x.finish d).2.session ∧ B t (x.finish d).1 (x.finish d).2.current

variable {w : World σ} {x : Git σ α} {c c' : Option Branch} {B : Behaviour α}

theorem Sends.mono {B' : Behaviour α} (h : x.Sends w c B)
    (hB : ∀ t out c', B t out c' → B' t out c') : x.Sends w c B' := by
  intro d hd
  obtain ⟨t, ht, hb⟩ := h d hd
  exact ⟨t, ht, hB _ _ _ hb⟩

theorem sends_pure {a : α} (h : B [] (.ok a) c) : (pure a : Git σ α).Sends w c B :=
  fun _ hd => ⟨[], .nothing rfl rfl, hd ▸ h⟩

theorem sends_throw {f : GitFault} (h : B [] (.error f) c) : (throw f : Git σ α).Sends w c B :=
  fun _ hd => ⟨[], .nothing rfl rfl, hd ▸ h⟩

theorem sends_throw_bind {f : GitFault} {k : β → Git σ α} (h : B [] (.error f) c) :
    (throw f >>= k).Sends w c B :=
  fun _ hd => ⟨[], .nothing rfl rfl, hd ▸ h⟩

/-- The exchanges of two operations in a row follow each other; a fault of the first one is the
fault of both. -/
theorem Sends.bind {f : α → Git σ β} {R : Behaviour α} {B : Behaviour β} (hx : x.Sends w c R)
    (hok : ∀ t a c', R t (.ok a) c' → (f a).Sends w c' fun t' => B (t ++ t'))
    (herr : ∀ t e c', R t (.error e) c' → B t (.error e) c') : (x >>= f).Sends w c B := by
  intro d hd
  obtain ⟨t, ht, hr⟩ := hx d hd
  rw [finish_bind]
  rcases hxd : x.finish d with ⟨out, d'⟩
  rw [hxd] at ht hr
  cases out with
  | ok a =>
    obtain ⟨t', ht', hb⟩ := hok t a _ hr d' rfl
    exact ⟨t ++ t', ht.trans ht', hb⟩
  -- `f` is not reached, so that the exchanges are those of `x` alone
  | error e => exact ⟨t, ht, herr t e _ hr⟩

/-- A first step that cannot fail: it finds `b` and leaves the desk `g`. -/
theorem sends_bind_of_finish {f : β → Git σ α} {y : Git σ β} {b : Desk σ → β} {g : Desk σ → Desk σ}
    {R : List Exchange → β → Prop} (hy : ∀ d, y.finish d = (.ok (b d), g d))
    (hg : ∀ d, d.current = c → (g d).current = c' ∧
      ∃ t, d.session.Leads w t (g d).session ∧ R t (b d))
    (h : ∀ t b, R t b → (f b).Sends w c' fun t' => B (t ++ t')) : (y >>= f).Sends w c B := by
  intro d hd
  obtain ⟨hc', t, ht, hr⟩ := hg d hd
  rw [finish_bind, hy d]
  obtain ⟨t', ht', hb⟩ := h t (b d) hr (g d) hc'
  exact ⟨t ++ t', ht.trans ht', hb⟩

theorem sends_get_bind {f : Desk σ → Git σ α} (h : ∀ d, d.current = c → (f d).Sends w c B) :
    (get >>= f).Sends w c B := by
  refine sends_bind_of_finish (R := fun t d => t = [] ∧ d.current = c) (fun _ => rfl)
    (fun d hd => ⟨hd, [], .nothing rfl rfl, rfl, hd⟩) ?_
  rintro t d ⟨rfl, hd⟩
  exact h d hd

theorem sends_modify_bind {g : Desk σ → Desk σ} {f : PUnit → Git σ α}
    (hg : ∀ d, d.current = c → (g d).current = c' ∧ (g d).session.outside = d.session.outside ∧
      (g d).session.transcript = d.session.transcript)
    (h : (f ⟨⟩).Sends w c' B) : (modify g >>= f).Sends w c B := by
  have hnothing : ∀ d, d.current = c →
      (g d).current = c' ∧ ∃ t, d.session.Leads w t (g d).session ∧ t = [] := by
    intro d hd
    obtain ⟨hc', hout, htr⟩ := hg d hd
    exact ⟨hc', [], .nothing hout htr, rfl⟩
  refine sends_bind_of_finish (R := fun t _ => t = []) (fun _ => rfl) hnothing ?_
  rintro t ⟨⟩ rfl
  exact h

theorem sends_remember_bind {f : Unit → Git σ α} (h : (f ()).Sends w c' B) :
    (remember c' >>= f).Sends w c B :=
  sends_modify_bind (fun _ _ => ⟨rfl, rfl, rfl⟩) h

/-- An operation on the session alone leaves what is remembered. -/
theorem sends_lift_bind {y : StateM (Session σ) β} {f : β → Git σ α} {R : List Exchange → β → Prop}
    (hy : ∀ s, ∃ t, s.Leads w t (y s).2 ∧ R t (y s).1)
    (h : ∀ t b, R t b → (f b).Sends w c fun t' => B (t ++ t')) : (lift y >>= f).Sends w c B :=
  sends_bind_of_finish (fun _ => rfl) (fun d hd => ⟨hd, hy d.session⟩) h

theorem sends_tell {event : Event} {B : Behaviour Unit} (h : B [] (.ok ()) c) :
    (tell event : Git σ Unit).Sends w c B :=
  fun _ hd => ⟨[], .nothing rfl rfl, hd ▸ h⟩

theorem sends_tell_bind {event : Event} {f : Unit → Git σ α} (h : (f ()).Sends w c B) :
    (tell event >>= f).Sends w c B := by
  refine sends_lift_bind (R := fun t _ => t = []) (fun s => ⟨[], .nothing rfl rfl, rfl⟩) ?_
  rintro t ⟨⟩ rfl
  exact h

theorem sends_call_bind {command : Command} {f : Reply → Git σ α}
    (h : ∀ reply, (f reply).Sends w c fun t => B (.command command reply :: t)) :
    (lift (w.call command) >>= f).Sends w c B := by
  refine sends_lift_bind (R := fun t reply => t = [.command command reply])
    (fun s => ⟨_, .call command, rfl⟩) ?_
  rintro t reply rfl
  exact h reply

theorem Sends.mapFault {g : GitFault → GitFault}
    (h : x.Sends w c fun t out c' => B t (out.mapError g) c') : (x.mapFault g).Sends w c B := by
  intro d hd
  rw [finish_mapFault]
  exact h d hd

/-- What an operation finds may be forgotten. -/
theorem Sends.discard {R : Behaviour α} (hx : x.Sends w c R) :
    (x >>= fun _ => pure ()).Sends w c fun t out c' =>
      ∃ found, R t found c' ∧ found.map (fun _ => ()) = out := by
  refine hx.bind ?_ ?_
  · intro t a c' hr
    exact sends_pure ⟨.ok a, by rwa [List.append_nil], rfl⟩
  · intro t e c' hr
    exact ⟨.error e, hr, rfl⟩

/-- An operation whose failure is a value goes on in any case. -/
theorem Sends.attempt_bind {f : Except GitFault α → Git σ β} {R : Behaviour α} {B : Behaviour β}
    (hx : x.Sends w c R)
    (h : ∀ t out c', R t out c' → (f out).Sends w c' fun t' => B (t ++ t')) :
    (x.attempt >>= f).Sends w c B := by
  intro d hd
  obtain ⟨t, ht, hr⟩ := hx d hd
  rw [finish_bind, finish_attempt]
  obtain ⟨t', ht', hb⟩ := h t _ _ hr (x.finish d).2 rfl
  exact ⟨t ++ t', ht.trans ht', hb⟩

end Git

end CodeSweep
