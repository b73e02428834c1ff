import CodeSweep.Proofs.Git.Behaviour
import CodeSweep.Proofs.Git.Listing
import CodeSweep.Rehearsal

/-! # Working copies

What git keeps of a working copy, as far as branches go: the local branches, the branch that HEAD is
on, and the branches of the remote. A command that succeeds has its usual effect on that (`after?`)
and prints what is there (`Prints`); a command that fails leaves it alone. Which commands fail is up
to the world.

`World.Keeps` says that a world outside is such a working copy for the commands run in one directory.
Along a conversation with it the working copy is then the replay of the exchanges, and every one of
them is explained by the state it was made in (`Keeps.replay_eq`, `Keeps.explains`). -/

namespace CodeSweep

open Branch (isName isHash Printable)

/-- The branches of a working copy and of its remote, and the branch that HEAD is on, if it is on
one. -/
structure WorkingCopy where
  locals : List String
  head : Option String
  remotes : List String
  locals_named : ∀ b ∈ locals, isName b = true
  remotes_named : ∀ b ∈ remotes, isName b = true
  head_local : ∀ b ∈ head, b ∈ locals

namespace WorkingCopy

variable {g : WorkingCopy}

/-! ## What commands do -/

/-- HEAD goes to a local branch. -/
def switch (g : WorkingCopy) (b : String) (h : b ∈ g.locals) : WorkingCopy :=
  { g with
    head := some b
    head_local := by rintro _ ⟨⟩; exact h }

/-- A branch is made, and HEAD goes to it. -/
def create (g : WorkingCopy) (b : String) (h : isName b = true) : WorkingCopy :=
  { g with
    locals := g.locals ++ [b]
    head := some b
    locals_named := by
      intro b' hb'
      rcases List.mem_append.mp hb' with hb' | hb'
      · exact g.locals_named b' hb'
      · rwa [List.mem_singleton.mp hb']
    head_local := by rintro _ ⟨⟩; simp }

/-- HEAD goes to no branch. -/
def detach (g : WorkingCopy) : WorkingCopy :=
  { g with
    head := none
    head_local := by simp }

/-- A branch that HEAD is not on goes away. -/
def drop (g : WorkingCopy) (b : String) (h : g.head ≠ some b) : WorkingCopy :=
  { g with
    locals := g.locals.filter (· != b)
    locals_named := fun b' hb' => g.locals_named b' (List.mem_filter.mp hb').1
    head_local := by
      intro b' hb'
      have hne : b' ≠ b := fun heq => h (heq ▸ hb')
      exact List.mem_filter.mpr ⟨g.head_local b' hb', by simpa using hne⟩ }

/-- A local branch is put on the remote. -/
def publish (g : WorkingCopy) (b : String) (h : b ∈ g.locals) : WorkingCopy :=
  { g with
    remotes := b :: g.remotes.filter (· != b)
    remotes_named := by
      intro b' hb'
      rcases List.mem_cons.mp hb' with rfl | hb'
      · exact g.locals_named b' h
      · exact g.remotes_named b' (List.mem_filter.mp hb').1 }

/-- What is left after a command that succeeded, or nothing where it cannot have succeeded. -/
def after? (g : WorkingCopy) : List String → Option WorkingCopy
  | ["checkout", b] => if h : b ∈ g.locals then some (g.switch b h) else none
  | ["checkout", "--detach", _] => some g.detach
  | "checkout" :: "-b" :: b :: _ =>
    if h : isName b = true ∧ b ∉ g.locals then some (g.create b h.1) else none
  | ["branch", "-D", b] => if h : g.head ≠ some b then some (g.drop b h) else none
  | ["push", "--force", "--no-verify", "--set-upstream", _, b] =>
    if h : b ∈ g.locals then some (g.publish b h) else none
  | _ => some g

/-- The local branches as a listing has them, with a mark at HEAD. -/
def branches (g : WorkingCopy) : List Branch :=
  g.locals.map fun b => { name := b, selected := g.head == some b }

/-- What a command that succeeded may have printed. A local listing may begin with a notice where
HEAD is on no branch; the hashes of a remote listing are any. -/
def Prints (notice : String → Prop) (g : WorkingCopy) : List String → String → Prop
  | ["branch"], stdout =>
    stdout = Branch.printLocal g.branches ∨
      g.head = none ∧ ∃ text, notice text ∧
        stdout = Branch.printLocal ({ name := text, selected := true } :: g.branches)
  | ["ls-remote", "--heads"], stdout =>
    ∃ hash : String → String, (∀ b, isHash (hash b) = true) ∧
      stdout = Branch.printRemote (g.remotes.map fun b => (hash b, b))
  | _, _ => True

theorem head_of_checkout {g' : WorkingCopy} {b : String} (h : g.after? ["checkout", b] = some g') :
    g'.head = some b ∧ g'.remotes = g.remotes := by
  simp only [after?] at h
  split at h
  · cases h
    exact ⟨rfl, rfl⟩
  · cases h

/-- Only a name that is free can be given to a new branch. -/
theorem head_of_create {g' : WorkingCopy} {b : String} {start : List String}
    (h : g.after? ("checkout" :: "-b" :: b :: start) = some g') :
    isName b = true ∧ g'.head = some b ∧ g'.remotes = g.remotes := by
  rw [after?] at h
  split at h
  next hb =>
    cases h
    exact ⟨hb.1, rfl, rfl⟩
  next => cases h

/-! ## Exchanges -/

/-- Whether an exchange is a command that succeeded on the working copy in `dir`, and which one. -/
def succeeded? (dir : Path) : Exchange → Option (List String × Output)
  | .command c (.ok o) =>
    if c.cwd = dir ∧ c.program = "git" ∧ o.success = true then some (c.args, o) else none
  | _ => none

/-- An exchange can happen: a command that succeeded could, and printed what is there. -/
def Allows (dir : Path) (notice : String → Prop) (g : WorkingCopy) (e : Exchange) : Prop :=
  ∀ args o, succeeded? dir e = some (args, o) → g.after? args ≠ none ∧ g.Prints notice args o.stdout

/-- The working copy after an exchange. -/
def next (dir : Path) (g : WorkingCopy) (e : Exchange) : WorkingCopy :=
  match succeeded? dir e with
  | some (args, _) => (g.after? args).getD g
  | none => g

/-- The working copy after some exchanges. -/
def replay (dir : Path) (g : WorkingCopy) (t : List Exchange) : WorkingCopy := t.foldl (next dir) g

/-- The exchanges can happen one after another. -/
def Explains (dir : Path) (notice : String → Prop) : WorkingCopy → List Exchange → Prop
  | _, [] => True
  | g, e :: t => g.Allows dir notice e ∧ Explains dir notice (g.next dir e) t

variable {dir : Path} {notice : String → Prop}

@[simp] theorem replay_nil : g.replay dir [] = g := rfl

@[simp] theorem replay_cons (e : Exchange) (t : List Exchange) :
    g.replay dir (e :: t) = (g.next dir e).replay dir t := rfl

@[simp] theorem replay_append (t t' : List Exchange) :
    g.replay dir (t ++ t') = (g.replay dir t).replay dir t' :=
  List.foldl_append

@[simp] theorem explains_nil : g.Explains dir notice [] ↔ True := Iff.rfl

@[simp] theorem explains_cons (e : Exchange) (t : List Exchange) :
    g.Explains dir notice (e :: t) ↔
      g.Allows dir notice e ∧ (g.next dir e).Explains dir notice t := Iff.rfl

@[simp] theorem explains_append (t t' : List Exchange) :
    g.Explains dir notice (t ++ t') ↔
      g.Explains dir notice t ∧ (g.replay dir t).Explains dir notice t' := by
  induction t generalizing g with
  | nil => simp
  | cons e t ih => simp [ih, and_assoc]

/-! ## The commands of a repository -/

section

variable {r : Repository} {args : List String} {reply : Reply} {o : Output}

theorem succeeded?_ran_ok (ho : o.success = true) :
    succeeded? r.path (r.ran args (.ok o)) = some (args, o) := by
  simp [succeeded?, Repository.ran, ho]

theorem succeeded?_ran_failed (h : Reply.succeeded reply = false) :
    succeeded? r.path (r.ran args reply) = none := by
  cases reply with
  | error cause => rfl
  | ok o =>
      have ho : o.success = false := h
      simp [succeeded?, Repository.ran, ho]

/-- A command that succeeded could, and printed what is there. -/
theorem Allows.of_ran (h : g.Allows r.path notice (r.ran args (.ok o))) (ho : o.success = true) :
    g.after? args ≠ none ∧ g.Prints notice args o.stdout :=
  h args o (succeeded?_ran_ok ho)

theorem next_ran_ok (ho : o.success = true) :
    g.next r.path (r.ran args (.ok o)) = (g.after? args).getD g := by
  simp [next, succeeded?_ran_ok ho]

theorem Allows.after?_next (h : g.Allows r.path notice (r.ran args (.ok o))) (ho : o.success = true) :
    g.after? args = some (g.next r.path (r.ran args (.ok o))) := by
  obtain ⟨g', hg'⟩ := Option.ne_none_iff_exists'.mp (h.of_ran ho).1
  rw [next_ran_ok ho, hg', Option.getD_some]

@[simp] theorem next_ran_failed (h : Reply.succeeded reply = false) :
    g.next r.path (r.ran args reply) = g := by
  simp [next, succeeded?_ran_failed h]

/-- A command that only looks leaves the working copy as it is, whatever the reply. -/
theorem next_ran_of_after? (h : g.after? args = some g) : g.next r.path (r.ran args reply) = g := by
  cases hs : Reply.succeeded reply with
  | false => exact next_ran_failed hs
  | true =>
      match reply, hs with
      | .ok o, ho => rw [next_ran_ok ho, h]; rfl

@[simp] theorem next_branch : g.next r.path (r.ran ["branch"] reply) = g := next_ran_of_after? rfl

@[simp] theorem next_remote : g.next r.path (r.ran ["remote"] reply) = g := next_ran_of_after? rfl

@[simp] theorem next_lsRemote : g.next r.path (r.ran ["ls-remote", "--heads"] reply) = g :=
  next_ran_of_after? rfl

@[simp] theorem next_add : g.next r.path (r.ran ["add", "."] reply) = g := next_ran_of_after? rfl

@[simp] theorem next_reset : g.next r.path (r.ran ["reset", "--hard"] reply) = g :=
  next_ran_of_after? rfl

@[simp] theorem next_fetch : g.next r.path (r.ran ["fetch"] reply) = g := next_ran_of_after? rfl

@[simp] theorem next_rebase (base : String) : g.next r.path (r.ran ["rebase", base] reply) = g :=
  next_ran_of_after? rfl

@[simp] theorem next_defaultBranch (address : String) (answer : Except Fault String) :
    g.next dir (.defaultBranch address answer) = g := rfl

@[simp] theorem next_gh {cwd : Path} :
    g.next dir (.command { cwd, program := "gh", args } reply) = g := by
  cases reply <;> simp [next, succeeded?]

end

end WorkingCopy

/-- Outside, the state holds a working copy in `dir`: what happens there is possible, and it is all
that happens to the working copy. -/
structure World.Keeps {σ : Type} (w : World σ) (dir : Path) (notice : String → Prop)
    (copy : σ → WorkingCopy) : Prop where
  allows : ∀ e s s', w.Moves e s s' → (copy s).Allows dir notice e
  follows : ∀ e s s', w.Moves e s s' → copy s' = (copy s).next dir e

namespace World.Keeps

variable {σ : Type} {w : World σ} {dir : Path} {notice : String → Prop} {copy : σ → WorkingCopy}
  {s s' : σ} {t : List Exchange}

theorem replay_eq (hw : w.Keeps dir notice copy) (h : Conversation w s t s') :
    copy s' = (copy s).replay dir t := by
  induction h with
  | nil => rfl
  | cons hm _ ih => rw [ih, hw.follows _ _ _ hm, WorkingCopy.replay_cons]

theorem explains (hw : w.Keeps dir notice copy) (h : Conversation w s t s') :
    (copy s).Explains dir notice t := by
  induction h with
  | nil => trivial
  | cons hm _ ih => exact ⟨hw.allows _ _ _ hm, hw.follows _ _ _ hm ▸ ih⟩

end World.Keeps

/-! ## A simulated world -/

namespace WorkingCopy

/-- How a command is made to fail: it exits with an error, or it does not start. -/
inductive Failure where
  | exits
  | unstarted

/-- What a command prints. -/
def printed (g : WorkingCopy) (remote : String) : List String → String
  | ["branch"] =>
    Branch.printLocal
      ((if g.head = none then [{ name := "(no branch)", selected := true }] else []) ++ g.branches)
  | ["ls-remote", "--heads"] => Branch.printRemote (g.remotes.map fun b => ("abc123", b))
  | ["remote"] => remote ++ "\n"
  | _ => ""

/-- Runs the commands for the working copy in `dir`. They are counted, and `plan` says which of them
fail that could have succeeded. No other program starts. -/
def simulate (dir : Path) (remote : String) (plan : Nat → Option Failure) (c : Command) :
    Disk × Nat × WorkingCopy → Reply × Disk × Nat × WorkingCopy
  | (disk, n, g) =>
    if c.cwd = dir ∧ c.program = "git" then
      match plan n, g.after? c.args with
      | none, some g' => (.ok { stdout := g.printed remote c.args }, disk, n + 1, g')
      | some .unstarted, _ => (.error .permissionDenied, disk, n + 1, g)
      | _, _ => (.ok { success := false }, disk, n + 1, g)
    else (.error .notFound, disk, n + 1, g)

/-- A world with one working copy, whose remote has the default branch `main`. -/
def world (dir : Path) (remote main : String) (plan : Nat → Option Failure) :
    World (Nat × WorkingCopy) where
  run := simulate dir remote plan
  hosting := Hosting.ofTables (fun _ => some main) (fun _ => none)

/-- A repository for trying things out. -/
def web : Repository where
  name := "web"
  address := "git@github.com:acme/web.git"
  path := ⟨"/R/web"⟩
  tags := []

/-- Where a simulation begins: nothing is remembered, and nothing was said. -/
def desk (g : WorkingCopy) : Desk (Nat × WorkingCopy) where
  current := none
  session := { disk := {}, outside := (0, g) }

variable {dir : Path} {remote main : String} {plan : Nat → Option Failure} {notice : String → Prop}

theorem printed_prints (hn : notice "(no branch)") (g : WorkingCopy) (args : List String) :
    g.Prints notice args (g.printed remote args) := by
  unfold printed
  split
  -- a local listing has a notice exactly where HEAD is on no branch
  · cases hh : g.head with
    | some b => exact .inl (by simp)
    | none => exact .inr ⟨hh, _, hn, by simp⟩
  · exact ⟨fun _ => "abc123", fun _ => (by decide : isHash "abc123" = true), rfl⟩
  · trivial
  · unfold Prints
    split <;> simp_all

/-- The simulated world keeps the working copy that it simulates. -/
theorem world_keeps (hn : notice "(no branch)") :
    (world dir remote main plan).Keeps dir notice (·.2) := by
  have step : ∀ e s s', (world dir remote main plan).Moves e s s' →
      s.2.Allows dir notice e ∧ s'.2 = s.2.next dir e := by
    rintro e ⟨n, g⟩ ⟨n', g'⟩ hm
    cases e with
    | command c reply =>
        obtain ⟨disk, disk', hrun⟩ := hm
        simp only [world, simulate] at hrun
        split at hrun
        next hc =>
          split at hrun
          next hafter =>
            cases hrun
            -- the one case in which something happens to the working copy
            constructor
            · intro args o hs
              simp only [succeeded?, hc, and_self, if_true, Option.some.injEq, Prod.mk.injEq] at hs
              obtain ⟨rfl, rfl⟩ := hs
              exact ⟨by simp [hafter], printed_prints hn g _⟩
            · simp [next, succeeded?, hc, hafter]
          · cases hrun
            exact ⟨by simp [Allows, succeeded?], rfl⟩
          · cases hrun
            exact ⟨by simp [Allows, succeeded?], by simp [next, succeeded?]⟩
        next =>
          cases hrun
          exact ⟨by simp [Allows, succeeded?], rfl⟩
    -- the hosting platform answers from its tables and moves nothing
    | defaultBranch address answer =>
        have hs : (n, g) = (n', g') := (Prod.mk.inj hm).2
        cases hs
        exact ⟨by simp [Allows, succeeded?], rfl⟩
    | pullRequest address request answer =>
        have hs : (n, g) = (n', g') := (Prod.mk.inj hm).2
        cases hs
        exact ⟨by simp [Allows, succeeded?], rfl⟩
  exact ⟨fun e s s' hm => (step e s s' hm).1, fun e s s' hm => (step e s s' hm).2⟩

end WorkingCopy

end CodeSweep
