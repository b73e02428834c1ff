import CodeSweep.Proofs.Git.SideBySide
import CodeSweep.Proofs.Workspace.Without
import CodeSweep.Proofs.Workspace.WorkDir

/-! # Bystanders

Two worlds may answer differently to what is asked for one repository, the odd one, and alike to all
else. This module says what that is (`Scene.Twins`), and follows what another repository, a bystander,
can see of it: nothing. Two sessions are alike to a bystander (`Scene.Alike`) when their disks are the
same without the directory of the odd repository, and so are the outside, all that was said for the
bystander, and whether it was left out. What is done for the odd repository on one side only keeps
sessions alike (`odd_served`, `odd_housed`); what is done for any other repository on both sides has
the same outcome and keeps them alike (`other_served`, `other_housed`). -/

namespace CodeSweep

/-- Whether a command is run for a repository: it clones it, or is run in its directory. -/
def Repository.owns (r : Repository) (command : Command) : Bool :=
  command == r.cloneCommand || command.cwd == r.path

/-- Whether an exchange is about a repository. -/
def Exchange.concerns (r : Repository) : Exchange → Bool
  | .command c _ => r.owns c
  | .defaultBranch address _ => address == r.address
  | .pullRequest address _ _ => address == r.address

/-- Whether an event says that a repository is left out. -/
def Event.skips (r : Repository) (event : Event) : Bool := event.skipped? == some r.address

/-- The repositories of a run, the directory they live in and where that is, with one of them that may
be answered differently. `view` is what of the outside has to do with the others. -/
structure Scene (σ τ : Type) where
  specs : List RepositorySpec
  work : Path
  base : Location
  odd : Repository
  view : σ → τ
  odd_mem : odd ∈ Repository.ofSpecs specs work
  /-- Every repository has an entry of its own in the directory. -/
  names : ∀ r ∈ Repository.ofSpecs specs work, r.name ≠ "." ∧ r.name ≠ ".."

namespace Scene

variable {σ τ : Type}

/-- The repositories of the run. -/
def repositories (k : Scene σ τ) : List Repository := Repository.ofSpecs k.specs k.work

/-- Where the odd repository lives. -/
def place (k : Scene σ τ) : Location := k.base ++ [k.odd.name]

/-- The working directory is where it belongs, and no link stands for a repository in it. -/
structure Hosts (k : Scene σ τ) (d : Disk) : Prop where
  opens : d.Opens k.work k.base
  plain : ∀ r ∈ k.repositories, ∀ target, d.kind? (k.base ++ [r.name]) ≠ some (.link target)

/-- Two states of affairs are the same, but for the odd repository. -/
structure Same (k : Scene σ τ) (p q : Disk × σ) : Prop where
  disk : p.1.without k.place = q.1.without k.place
  outside : k.view p.2 = k.view q.2

/-- What a world does for the odd repository stays with it, and no command takes the working directory
away or puts a link in a repository's place. -/
structure Confines (k : Scene σ τ) (w : World σ) : Prop where
  run : ∀ command p, k.odd.owns command = true → k.Hosts p.1 → k.Same (w.run command p).2 p
  keeps : ∀ command p, k.Hosts p.1 → k.Hosts (w.run command p).2.1
  ask : ∀ branch request, w.hosting = .service branch request → ∀ o,
    k.view (branch k.odd.address o).2 = k.view o ∧
      ∀ pr, k.view (request k.odd.address pr o).2 = k.view o

/-- Two platforms answer alike, but for the odd repository. -/
inductive Platforms (k : Scene σ τ) : Hosting σ → Hosting σ → Prop
  | gh : Platforms k .gh .gh
  | service {branch branch' request request'}
      (branches : ∀ address o o', address ≠ k.odd.address → k.view o = k.view o' →
        (branch address o).1 = (branch' address o').1 ∧
          k.view (branch address o).2 = k.view (branch' address o').2)
      (requests : ∀ address pr o o', address ≠ k.odd.address → k.view o = k.view o' →
        (request address pr o).1 = (request' address pr o').1 ∧
          k.view (request address pr o).2 = k.view (request' address pr o').2) :
      Platforms k (.service branch request) (.service branch' request')

/-- **Two worlds answer alike, but for the odd repository**: any other command has the same reply and
the same effect in states that are the same but for it. -/
structure Twins (k : Scene σ τ) (w w' : World σ) : Prop where
  left : k.Confines w
  right : k.Confines w'
  run : ∀ command p q, k.odd.owns command = false → k.Hosts p.1 → k.Hosts q.1 → k.Same p q →
    (w.run command p).1 = (w'.run command q).1 ∧ k.Same (w.run command p).2 (w'.run command q).2
  platforms : k.Platforms w.hosting w'.hosting

/-- Two sessions are alike to the repository `b`. -/
structure Alike (k : Scene σ τ) (b : Repository) (s t : Session σ) : Prop where
  same : k.Same (s.disk, s.outside) (t.disk, t.outside)
  hosts : k.Hosts s.disk
  hosts' : k.Hosts t.disk
  said : s.transcript.filter (·.concerns b) = t.transcript.filter (·.concerns b)
  skipped : s.events.filter (·.skips b) = t.events.filter (·.skips b)

variable {k : Scene σ τ} {w w' : World σ} {b r : Repository} {s t : Session σ} {command : Command}
  {p q p' : Disk × σ}

theorem Same.symm (h : k.Same p q) : k.Same q p := ⟨h.disk.symm, h.outside.symm⟩

theorem Same.trans (h : k.Same p q) (h' : k.Same q p') : k.Same p p' :=
  ⟨h.disk.trans h'.disk, h.outside.trans h'.outside⟩

theorem Alike.symm (h : k.Alike b s t) : k.Alike b t s :=
  ⟨h.same.symm, h.hosts', h.hosts, h.said.symm, h.skipped.symm⟩

/-! ## One side goes on -/

/-- What is said for the odd repository on one side is not seen. -/
theorem Alike.call_left (hw : k.Confines w) (h : k.Alike b s t) (hodd : k.odd.owns command = true)
    (hb : b.owns command = false) : k.Alike b (w.call command s).2 t := by
  have hrun := hw.run command (s.disk, s.outside) hodd h.hosts
  refine ⟨hrun.trans h.same, hw.keeps command _ h.hosts, h.hosts', ?_, h.skipped⟩
  have hsilent : ∀ reply, Exchange.concerns b (.command command reply) = false := fun _ => hb
  simp [World.call, hsilent, h.said]

theorem Alike.note_left {e : Exchange} (h : k.Alike b s t) (he : e.concerns b = false) :
    k.Alike b (Session.note e s).2 t := by
  refine ⟨h.same, h.hosts, h.hosts', ?_, h.skipped⟩
  show (s.transcript ++ [e]).filter _ = _
  simp [he, h.said]

theorem Alike.told_left {events : List Event} (h : k.Alike b s t)
    (hevents : ∀ event ∈ events, event.skips b = false) :
    k.Alike b { s with events := s.events ++ events } t := by
  refine ⟨h.same, h.hosts, h.hosts', h.said, ?_⟩
  have hnone : events.filter (·.skips b) = [] := by simpa using hevents
  rw [List.filter_append, hnone, List.append_nil, h.skipped]

theorem Alike.tell_left {event : Event} (h : k.Alike b s t) (hevent : event.skips b = false) :
    k.Alike b (Session.tell event s).2 t :=
  h.told_left (by simpa using hevent)

theorem Alike.outside_left {o : σ} (h : k.Alike b s t) (ho : k.view o = k.view s.outside) :
    k.Alike b { s with outside := o } t :=
  ⟨⟨h.same.disk, ho.trans h.same.outside⟩, h.hosts, h.hosts', h.said, h.skipped⟩

/-! ## Both sides go on -/

theorem Alike.call (hw : k.Twins w w') (h : k.Alike b s t) (hodd : k.odd.owns command = false) :
    (w.call command s).1 = (w'.call command t).1 ∧
      k.Alike b (w.call command s).2 (w'.call command t).2 := by
  obtain ⟨hreply, hsame⟩ :=
    hw.run command (s.disk, s.outside) (t.disk, t.outside) hodd h.hosts h.hosts' h.same
  refine ⟨hreply, hsame, hw.left.keeps command _ h.hosts, hw.right.keeps command _ h.hosts', ?_, h.skipped⟩
  simp only [World.call, List.filter_append, h.said, hreply]

theorem Alike.note {e e' : Exchange} (h : k.Alike b s t) (he : e = e') :
    k.Alike b (Session.note e s).2 (Session.note e' t).2 := by
  subst he
  refine ⟨h.same, h.hosts, h.hosts', ?_, h.skipped⟩
  show (s.transcript ++ [e]).filter _ = (t.transcript ++ [e]).filter _
  rw [List.filter_append, List.filter_append, h.said]

theorem Alike.tell (event : Event) (h : k.Alike b s t) :
    k.Alike b (Session.tell event s).2 (Session.tell event t).2 := by
  refine ⟨h.same, h.hosts, h.hosts', h.said, ?_⟩
  show (s.events ++ [event]).filter _ = (t.events ++ [event]).filter _
  rw [List.filter_append, List.filter_append, h.skipped]

theorem Alike.told {events events' : List Event} (h : k.Alike b s t)
    (hevents : ∀ event ∈ events, event.skips b = false)
    (hevents' : ∀ event ∈ events', event.skips b = false) :
    k.Alike b { s with events := s.events ++ events } { t with events := t.events ++ events' } :=
  ((h.told_left hevents).symm.told_left hevents').symm

theorem Alike.setOutside {o o' : σ} (h : k.Alike b s t) (ho : k.view o = k.view o') :
    k.Alike b { s with outside := o } { t with outside := o' } :=
  ⟨⟨h.same.disk, ho⟩, h.hosts, h.hosts', h.said, h.skipped⟩

theorem Alike.setDisk {d d' : Disk} (h : k.Alike b s t) (hdisk : d.without k.place = d'.without k.place)
    (hhosts : k.Hosts d) (hhosts' : k.Hosts d') :
    k.Alike b { s with disk := d } { t with disk := d' } :=
  ⟨⟨hdisk, h.same.outside⟩, hhosts, hhosts', h.said, h.skipped⟩

/-! ## Whose command it is -/

theorem isEntryName_of_mem (hr : r ∈ k.repositories) : Listing.isEntryName r.name = true :=
  Repository.isEntryName_of_name hr (k.names r hr)

theorem home_of_mem (hr : r ∈ k.repositories) : r.home = k.work.around := by
  rw [Repository.home, (Repository.ofSpecs_spec hr).2, Path.parent_child (isEntryName_of_mem hr),
    Option.getD_some]

theorem owns_own (r : Repository) (program : String) (args : List String) :
    r.owns { cwd := r.path, program, args } = true := by
  simp [Repository.owns]

theorem owns_cloneCommand (r : Repository) : r.owns r.cloneCommand = true := by
  simp [Repository.owns]

section Apart

variable (hr : r ∈ k.repositories) (hb : b ∈ k.repositories) (hne : r ≠ b)

include hr hb hne

/-- What is run in the directory of one repository is not run for another. -/
theorem owns_in (program : String) (args : List String) :
    b.owns { cwd := r.path, program, args } = false := by
  have hpath : r.path ≠ b.path := fun heq => hne (Repository.eq_of_path hr hb heq)
  have hhome : r.path ≠ b.home := by
    rw [home_of_mem hb, (Repository.ofSpecs_spec hr).2]
    exact (Path.around_ne_child (isEntryName_of_mem hr)).symm
  simp [Repository.owns, Repository.cloneCommand, hpath, hhome]

/-- A repository is cloned for itself alone. -/
theorem owns_clone : b.owns r.cloneCommand = false := by
  have haddress : r.address ≠ b.address := fun heq => hne (Repository.eq_of_address hr hb heq)
  have hhome : r.home ≠ b.path := by
    rw [home_of_mem hr, (Repository.ofSpecs_spec hb).2]
    exact Path.around_ne_child (isEntryName_of_mem hb)
  simp [Repository.owns, Repository.cloneCommand, haddress, hhome]

theorem address_ne : (r.address == b.address) = false :=
  beq_false_of_ne fun heq => hne (Repository.eq_of_address hr hb heq)

end Apart

/-! ## What is done for the odd repository -/

/-- Making room in the working directory changes nothing: it is there. -/
theorem makeDirs_home (hs : k.Hosts s.disk) (hr : r ∈ k.repositories) :
    Session.makeDirs r.home s = (.ok (), s) := by
  have hmade := Disk.makeDirs_parent hs.opens (isEntryName_of_mem hr)
  rw [← (Repository.ofSpecs_spec hr).2] at hmade
  simp only [Session.makeDirs, Repository.home, hmade]

section Odd

variable (hw : k.Confines w) (hb : b ∈ k.repositories) (hne : k.odd ≠ b)

include hw hb hne

theorem Alike.defaultBranch_left (h : k.Alike b s t) :
    k.Alike b (Hosting.defaultBranch w k.odd.address k.odd.path s).2 t := by
  have hsilent : ∀ answer, Exchange.concerns b (.defaultBranch k.odd.address answer) = false :=
    fun _ => address_ne k.odd_mem hb hne
  unfold Hosting.defaultBranch
  cases hhosting : w.hosting with
  | gh =>
      have hasked := h.call_left hw (owns_own k.odd "gh" Hosting.viewArgs)
        (owns_in k.odd_mem hb hne _ _)
      exact hasked.note_left (hsilent _)
  | service branch request =>
      exact (h.outside_left (hw.ask _ _ hhosting s.outside).1).note_left (hsilent _)

theorem Alike.openRequest_left (h : k.Alike b s t) (pr : PullRequest) :
    k.Alike b (k.odd.openRequest w pr s).2 t := by
  have hsilent : ∀ answer, Exchange.concerns b (.pullRequest k.odd.address pr answer) = false :=
    fun _ => address_ne k.odd_mem hb hne
  unfold Repository.openRequest Hosting.openRequest
  cases hhosting : w.hosting with
  | gh =>
      have hasked := h.call_left hw (owns_own k.odd "gh" (Hosting.requestArgs pr))
        (owns_in k.odd_mem hb hne _ _)
      exact hasked.note_left (hsilent _)
  | service branch request =>
      exact (h.outside_left ((hw.ask _ _ hhosting s.outside).2 pr)).note_left (hsilent _)

/-- Working on the odd repository in one session keeps it alike to another. -/
theorem odd_served (t : Session σ) :
    k.odd.Served w w (Session.Beside fun s => k.Alike b s t) (fun _ => True) where
  routine _ _ := trivial
  git args _ := Session.paired_beside fun _ hs =>
    hs.call_left hw (owns_own k.odd "git" args) (owns_in k.odd_mem hb hne _ _)
  defaultBranch := Session.paired_beside fun _ hs => hs.defaultBranch_left hw hb hne
  tell event hevent := Session.paired_beside fun _ hs => hs.tell_left (by simp [Event.skips, hevent])

theorem odd_housed (t : Session σ) :
    k.odd.Housed w w (Session.Beside fun s => k.Alike b s t) where
  present := by
    rintro s _ ⟨rfl, -⟩
    rfl
  room := Session.paired_beside fun _ hs => by
    rw [makeDirs_home hs.hosts k.odd_mem]
    exact hs
  clone := Session.paired_beside fun _ hs =>
    hs.call_left hw (owns_cloneCommand k.odd) (owns_clone k.odd_mem hb hne)
  tell := Session.paired_beside fun _ hs => hs.tell_left rfl

end Odd

/-! ## What is done for another repository -/

section Other

variable (hw : k.Twins w w') (hr : r ∈ k.repositories) (hne : r ≠ k.odd)

include hw hr hne

/-- Both sides go on from the same answer. -/
theorem askGh_paired (args : List String) :
    Session.Paired (k.Alike b) (Hosting.askGh w r.path args) (Hosting.askGh w' r.path args) := by
  have hcall : Session.Paired (k.Alike b) (w.call { cwd := r.path, program := "gh", args })
      (w'.call { cwd := r.path, program := "gh", args }) :=
    fun _ _ h => h.call hw (owns_in hr k.odd_mem hne _ _)
  exact hcall.bind_any fun reply => Session.paired_pure (Hosting.printed args reply)

theorem defaultBranch_paired :
    Session.Paired (k.Alike b) (Hosting.defaultBranch w r.address r.path)
      (Hosting.defaultBranch w' r.address r.path) := by
  have hplatforms := hw.platforms
  have haddress : r.address ≠ k.odd.address := fun heq => hne (Repository.eq_of_address hr k.odd_mem heq)
  unfold Hosting.defaultBranch
  generalize w.hosting = host, w'.hosting = host' at hplatforms
  cases hplatforms with
  | gh =>
      exact (askGh_paired hw hr hne _).bind_any fun printed s t h => ⟨rfl, h.note rfl⟩
  | service branches requests =>
      intro s t h
      obtain ⟨hanswer, hview⟩ := branches r.address s.outside t.outside haddress h.same.outside
      exact ⟨hanswer, (h.setOutside hview).note (congrArg (Exchange.defaultBranch r.address) hanswer)⟩

theorem openRequest_paired (pr : PullRequest) :
    Session.Paired (k.Alike b) (r.openRequest w pr) (r.openRequest w' pr) := by
  have hplatforms := hw.platforms
  have haddress : r.address ≠ k.odd.address := fun heq => hne (Repository.eq_of_address hr k.odd_mem heq)
  unfold Repository.openRequest Hosting.openRequest
  generalize w.hosting = host, w'.hosting = host' at hplatforms
  cases hplatforms with
  | gh =>
      exact (askGh_paired hw hr hne _).bind_any fun printed s t h => ⟨rfl, h.note rfl⟩
  | service branches requests =>
      intro s t h
      obtain ⟨hanswer, hview⟩ := requests r.address pr s.outside t.outside haddress h.same.outside
      exact ⟨hanswer, (h.setOutside hview).note (congrArg (Exchange.pullRequest r.address pr) hanswer)⟩

/-- Working on another repository is the same in sessions that are alike. -/
theorem other_served : r.Served w w' (k.Alike b) (fun _ => True) where
  routine _ _ := trivial
  git _ _ := fun _ _ h => h.call hw (owns_in hr k.odd_mem hne _ _)
  defaultBranch := defaultBranch_paired hw hr hne
  tell event _ := fun _ _ h => ⟨rfl, h.tell event⟩

omit hw in
/-- Whether another repository is there does not depend on the odd one: none of them is a link. -/
theorem exists?_eq (h : k.Alike b s t) : s.disk.exists? r.path = t.disk.exists? r.path := by
  have hname := isEntryName_of_mem hr
  have hother : r.name ≠ k.odd.name := fun heq => hne (Repository.eq_of_name hr k.odd_mem heq)
  have haround : s.disk.kind? k.base = t.disk.kind? k.base := Disk.kind?_around_eq h.same.disk
  have hentry : s.disk.kind? (k.base ++ [r.name]) = t.disk.kind? (k.base ++ [r.name]) := by
    rw [Disk.kind?, Disk.kind?, Disk.lookup?_eq_of_without h.same.disk hother]
  rw [(Repository.ofSpecs_spec hr).2, Bool.eq_iff_iff,
    Disk.exists?_child_iff h.hosts.opens hname (h.hosts.plain r hr),
    Disk.exists?_child_iff h.hosts'.opens hname (h.hosts'.plain r hr), haround, hentry]

theorem other_housed : r.Housed w w' (k.Alike b) where
  present _ _ h := exists?_eq hr hne h
  room := by
    intro s t h
    rw [makeDirs_home h.hosts hr, makeDirs_home h.hosts' hr]
    exact ⟨rfl, h⟩
  clone _ _ h := h.call hw (owns_clone hr k.odd_mem hne)
  tell _ _ h := ⟨rfl, h.tell _⟩

end Other

end Scene

end CodeSweep
