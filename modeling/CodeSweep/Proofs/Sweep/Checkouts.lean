import CodeSweep.Proofs.Git.Commands
import CodeSweep.Proofs.Sweep.Cloning
import CodeSweep.Proofs.Workspace.PathOrder
import CodeSweep.Proofs.Workspace.WorkDir

/-! # Checkouts of their own

Many entries of a list may give one name, and a name is all that a checkout's directory depends on. So the
list is thinned out before anything is run: of the entries of one name the first is left. What is left has
different names and therefore different paths (`Path.same_child_iff_of_name`), and a pass gives each
repository one turn. Therefore no two turns of a pass work in one directory (`apart_of_sublist`), a turn at
being cloned runs one clone at most (`clonedNames_turn`), and a whole pass clones no name twice
(`cloneOnce_of_clones`).

That the entries left are the first ones of their names is said by their positions in the list, which
increase (`fromFirsts_ofSpecs`). Different paths may still be one place on a disk with links. But a link
matters only where it stands in a repository's own place: repositories that have entries of their own share
nothing (`Repository.Apart.disjoint`). The names of no entry, one dot and two, are left aside there, as all
others lie under them. -/

namespace CodeSweep

variable {σ : Type}

/-! ## Directories of different names -/

/-- A name that is no entry's is one of the two that every directory has. -/
theorem Listing.eq_dots_of_not_isEntryName {name : String} (hne : name ≠ "") (hname : '/' ∉ name.toList)
    (h : isEntryName name ≠ true) : name = "." ∨ name = ".." := by
  by_contra hdots
  obtain ⟨hhere, hup⟩ := not_or.mp hdots
  exact h (isEntryName_iff.mpr ⟨hne, hhere, hup, hname⟩)

theorem Path.same_dots (p : Path) : (p.child ".").same (p.child "..") = false := by
  have hup : (p.child "..").components = p.components ++ [.up] := components_child (by decide) nofun
  rw [Path.same, beq_eq_false_iff_ne, hup]
  by_cases htext : p.text = ""
  · obtain ⟨text⟩ := p
    cases htext
    decide
  · rw [components_child (by decide) fun _ => htext]
    show p.components ++ [] ≠ p.components ++ [Component.up]
    simp

/-- Children of a directory have the same path only if they have the same name. -/
theorem Path.same_child_iff_of_name {p : Path} {name other : String}
    (hname : name ≠ "" ∧ '/' ∉ name.toList) (hother : other ≠ "" ∧ '/' ∉ other.toList) :
    (p.child name).same (p.child other) = true ↔ name = other := by
  by_cases hentry : Listing.isEntryName name = true
  · exact same_child_iff hentry hother.2
  by_cases hentry' : Listing.isEntryName other = true
  · rw [same_comm]
    exact (same_child_iff hentry' hname.2).trans eq_comm
  refine ⟨fun hsame => ?_, fun heq => by simp [heq, same]⟩
  rcases Listing.eq_dots_of_not_isEntryName hname.1 hname.2 hentry with rfl | rfl <;>
    rcases Listing.eq_dots_of_not_isEntryName hother.1 hother.2 hentry' with rfl | rfl
  · rfl
  · rw [same_dots] at hsame
    cases hsame
  · rw [same_comm, same_dots] at hsame
    cases hsame
  · rfl

/-! ## The first entries of their names -/

namespace Repository

variable {specs rest : List RepositorySpec} {spec : RepositorySpec} {location : Path} {r : Repository}
  {rs rs' : List Repository} {position : Nat}

/-- The entry at a position is the first one of its name, and the repository is made from it. -/
structure FirstAt (specs : List RepositorySpec) (location : Path) (r : Repository) (position : Nat) :
    Prop where
  entry : ∃ spec, specs[position]? = some spec ∧ nameOf? spec.address = some r.name ∧
    r.address = spec.address ∧ r.tags = Ordered.names spec.tags ∧ r.path = location.child r.name
  first : ∀ earlier ∈ specs.take position, nameOf? earlier.address ≠ some r.name

/-- Repositories are made from entries that are the first ones of their names, in the order of these. -/
def FromFirsts (specs : List RepositorySpec) (location : Path) (rs : List Repository) : Prop :=
  ∃ positions : List Nat, positions.Pairwise (· < ·) ∧ List.Forall₂ (FirstAt specs location) rs positions

theorem FirstAt.later (h : FirstAt rest location r position)
    (hspec : nameOf? spec.address ≠ some r.name) : FirstAt (spec :: rest) location r (position + 1) := by
  refine ⟨by simpa using h.entry, ?_⟩
  intro earlier hearlier
  rw [List.take_succ_cons] at hearlier
  rcases List.mem_cons.mp hearlier with rfl | hearlier
  · exact hspec
  · exact h.first earlier hearlier

/-- Some of the repositories, in their order, are made from first entries too. -/
theorem FromFirsts.sublist (h : FromFirsts specs location rs) (hsub : rs'.Sublist rs) :
    FromFirsts specs location rs' := by
  obtain ⟨positions, hincreasing, hfirst⟩ := h
  obtain ⟨fewer, hfewer, hfirst'⟩ : ∃ fewer, fewer.Sublist positions ∧
      List.Forall₂ (FirstAt specs location) rs' fewer := by
    clear hincreasing
    induction hsub generalizing positions with
    | slnil => exact ⟨[], List.nil_sublist _, .nil⟩
    | cons r _ ih =>
        cases hfirst with
        | cons _ hrest =>
            obtain ⟨fewer, hfewer, hall⟩ := ih _ hrest
            exact ⟨fewer, hfewer.cons _, hall⟩
    | cons_cons r _ ih =>
        cases hfirst with
        | cons hr hrest =>
            obtain ⟨fewer, hfewer, hall⟩ := ih _ hrest
            exact ⟨_ :: fewer, hfewer.cons_cons _, .cons hr hall⟩
  exact ⟨fewer, hincreasing.sublist hfewer, hfirst'⟩

/-- Behind an entry of a name that none of the repositories has, each is made from the same entry, one
position later. -/
theorem FromFirsts.behind (spec : RepositorySpec) (h : FromFirsts rest location rs)
    (hspec : ∀ r ∈ rs, nameOf? spec.address ≠ some r.name) :
    ∃ positions : List Nat, (∀ position ∈ positions, 0 < position) ∧ positions.Pairwise (· < ·) ∧
      List.Forall₂ (FirstAt (spec :: rest) location) rs positions := by
  obtain ⟨positions, hincreasing, hfirst⟩ := h
  refine ⟨positions.map (· + 1), ?_, ?_, ?_⟩
  · intro position hposition
    obtain ⟨_, -, rfl⟩ := List.mem_map.mp hposition
    exact Nat.succ_pos _
  · exact List.pairwise_map.mpr (hincreasing.imp fun hlt => Nat.succ_lt_succ hlt)
  · have hboth := (List.forall₂_and_left rs positions).mpr ⟨hspec, hfirst⟩
    exact List.forall₂_map_right_iff.mpr (hboth.imp fun r position hr => hr.2.later hr.1)

/-- Thinning out a list leaves the first entries of the names that were not taken. -/
theorem fromFirsts_distinct (taken : List String) (specs : List RepositorySpec) (location : Path) :
    FromFirsts specs location
      (distinct taken (specs.filterMap fun spec => ofAddress? spec.address location spec.tags)) := by
  induction specs generalizing taken with
  | nil => exact ⟨[], .nil, .nil⟩
  | cons spec rest ih =>
      have hbehind : ∀ taken, (∀ name ∈ nameOf? spec.address, name ∈ taken) → _ := fun taken htaken =>
        (ih taken).behind spec fun r hr heq =>
          ((nodup_distinct taken _).2 r hr).1 (htaken r.name heq)
      cases hname : nameOf? spec.address with
      | none =>
          have hskip : ofAddress? spec.address location spec.tags = none := by rw [ofAddress?, hname]; rfl
          obtain ⟨positions, -, hincreasing, hfirst⟩ := hbehind taken (by simp [hname])
          simp only [List.filterMap_cons, hskip]
          exact ⟨positions, hincreasing, hfirst⟩
      | some name =>
          have hmade : ofAddress? spec.address location spec.tags =
              some { name, address := spec.address, path := location.child name
                     tags := Ordered.names spec.tags } := by
            rw [ofAddress?, hname]
            rfl
          simp only [List.filterMap_cons, hmade, distinct]
          split
          next htaken =>
            obtain ⟨positions, -, hincreasing, hfirst⟩ := hbehind taken (by simpa [hname] using htaken)
            exact ⟨positions, hincreasing, hfirst⟩
          next =>
            obtain ⟨positions, hpositive, hincreasing, hfirst⟩ := hbehind (name :: taken) (by simp [hname])
            refine ⟨0 :: positions, List.pairwise_cons.mpr ⟨hpositive, hincreasing⟩, .cons ?_ hfirst⟩
            exact ⟨⟨spec, rfl, hname, rfl, rfl, rfl⟩, List.forall_mem_nil _⟩

/-- The repositories of a run are made from the first entries of their names. -/
theorem fromFirsts_ofSpecs (specs : List RepositorySpec) (location : Path) :
    FromFirsts specs location (ofSpecs specs location) :=
  fromFirsts_distinct [] specs location

/-- Every first entry of a name has its repository among them. -/
theorem mem_ofSpecs_of_firstAt (h : FirstAt specs location r position) : r ∈ ofSpecs specs location := by
  obtain ⟨spec, hspec, hname, haddress, htags, hpath⟩ := h.entry
  have hmade : ofAddress? spec.address location spec.tags = some r := by
    rw [ofAddress?, hname, Option.map_some, ← haddress, ← htags, ← hpath]
  obtain ⟨hposition, hget⟩ := List.getElem?_eq_some_iff.mp hspec
  have hsplit : specs = specs.take position ++ spec :: specs.drop (position + 1) := by
    rw [← hget, List.getElem_cons_drop, List.take_append_drop]
  rw [hsplit]
  exact mem_ofSpecs_of_first hmade h.first

/-- A repository has an entry of its own in a directory: its name is an entry's, and no link stands there. -/
structure HasEntry (r : Repository) (d : Disk) (dir : Path) : Prop where
  name : Listing.isEntryName r.name = true
  unlinked : d.Unlinked dir r.name

/-- Repositories with directories of their own: their names and paths are different, and they stand in the
order of the first entries of their names, which they are made from. What lies under the path of one on a
disk lies under its own entry there, and so under the path of no other. -/
structure Apart (specs : List RepositorySpec) (location : Path) (rs : List Repository) : Prop where
  names : (rs.map (·.name)).Nodup
  paths : rs.Pairwise fun r r' => r.path.same r'.path = false
  firsts : FromFirsts specs location rs
  inside : ∀ r ∈ rs, ∀ d : Disk, r.HasEntry d location → ∀ names loc, d.Under r.path names loc →
    ∃ base, d.Opens location base ∧ loc = base ++ r.name :: names
  disjoint : rs.Pairwise fun r r' => ∀ d : Disk, r.HasEntry d location → r'.HasEntry d location →
    ∀ names names' loc, d.Under r.path names loc → ¬ d.Under r'.path names' loc

/-- The repositories of a run have directories of their own, and so have some of them. -/
theorem apart_of_sublist (h : rs.Sublist (ofSpecs specs location)) : Apart specs location rs := by
  have hnames : (rs.map (·.name)).Nodup := (nodup_names specs location).sublist (h.map _)
  have hspec : ∀ r ∈ rs, (r.name ≠ "" ∧ '/' ∉ r.name.toList) ∧ r.path = location.child r.name :=
    fun r hr => ⟨name_spec (h.subset hr), (ofSpecs_spec (h.subset hr)).2⟩
  have hinside : ∀ r ∈ rs, ∀ d : Disk, r.HasEntry d location → ∀ names loc, d.Under r.path names loc →
      ∃ base, d.Opens location base ∧ loc = base ++ r.name :: names := by
    intro r hr d hentry names loc hunder
    rw [(hspec r hr).2] at hunder
    obtain ⟨base, hopens, -, hloc⟩ := Disk.under_child hunder hentry.name hentry.unlinked
    exact ⟨base, hopens, hloc⟩
  refine ⟨hnames, ?_, (fromFirsts_ofSpecs specs location).sublist h, hinside, ?_⟩
  · refine (List.pairwise_map.mp hnames).imp_of_mem ?_
    intro r r' hr hr' hne
    obtain ⟨hname, hpath⟩ := hspec r hr
    obtain ⟨hname', hpath'⟩ := hspec r' hr'
    rw [Bool.eq_false_iff, hpath, hpath', Ne, Path.same_child_iff_of_name hname hname']
    exact hne
  · refine (List.pairwise_map.mp hnames).imp_of_mem ?_
    intro r r' hr hr' hne d hentry hentry' names names' loc hunder hunder'
    obtain ⟨base, hopens, rfl⟩ := hinside r hr d hentry names loc hunder
    obtain ⟨base', hopens', hloc⟩ := hinside r' hr' d hentry' names' _ hunder'
    -- both entries are of the one directory that the location opens
    obtain rfl := hopens.unique hopens'
    exact hne (List.cons.inj (List.append_cancel_left hloc)).1

end Repository

/-! ## What is cloned -/

/-- The name under which an exchange clones a repository. -/
def Exchange.cloned? (e : Exchange) : Option String :=
  match e.git? with
  | some ["clone", _, name] => some name
  | _ => none

/-- The names under which repositories are cloned, in the order of the clones. -/
def clonedNames (t : List Exchange) : List String := t.filterMap Exchange.cloned?

theorem clonedNames_append (t t' : List Exchange) :
    clonedNames (t ++ t') = clonedNames t ++ clonedNames t' := List.filterMap_append

theorem clonedNames_eq_nil {t : List Exchange} (h : ∀ args ∈ gitCommands t, args.head? ≠ some "clone") :
    clonedNames t = [] := by
  apply List.filterMap_eq_nil_iff.mpr
  intro e he
  unfold Exchange.cloned?
  split
  next address name hgit => exact absurd rfl (h _ (List.mem_filterMap.mpr ⟨e, he, hgit⟩))
  next => rfl

namespace Repository

variable {r : Repository} {b b' : Option Branch} {t : List Exchange} {out : Except GitFault Unit}

/-- Cloning runs one clone at most, under the name of the repository. -/
theorem Clones.clonedNames_sublist (h : r.Clones b t out b') : (clonedNames t).Sublist [r.name] := by
  cases h with
  | present => exact List.nil_sublist _
  | homeless => exact List.nil_sublist _
  | cloned => exact List.Sublist.refl _
  | failed => exact List.Sublist.refl _

/-- Bringing a working copy onto a branch clones nothing. -/
theorem Prepares.clonedNames_eq {working : String} (h : r.Prepares working b t out b') :
    clonedNames t = [] := by
  obtain ⟨known?, -, hcommands⟩ := h.commands
  apply clonedNames_eq_nil
  intro args hargs
  have hall : ∀ args ∈ prepareCommands working known?, args.head? ≠ some "clone" := by
    cases known? <;>
      simp [prepareCommands, checkoutCommands, resetCommands, cleanCommands, updateCommands,
        calmCommands, surveyCommands, rebaseCommands, recreateCommands]
  exact hall args (hcommands hargs)

end Repository

/-! ## Turns -/

namespace Turn

variable {turns : List (Turn σ)}

/-- No repository is cloned twice, and none whose directory was there when its turn came. -/
structure CloneOnce (turns : List (Turn σ)) : Prop where
  once : (clonedNames (turns.flatMap (·.said))).Nodup
  spared : ∀ turn ∈ turns, turn.before.disk.exists? turn.repository.path = true →
    turn.repository.name ∉ clonedNames (turns.flatMap (·.said))

theorem clonedNames_flatMap (h : ∀ turn ∈ turns, (clonedNames turn.said).Sublist [turn.repository.name]) :
    (clonedNames (turns.flatMap (·.said))).Sublist (turns.map (·.repository.name)) := by
  induction turns with
  | nil => exact List.Sublist.refl _
  | cons turn rest ih =>
      rw [List.flatMap_cons, clonedNames_append, List.map_cons, ← List.singleton_append]
      apply List.Sublist.append
      · exact h turn List.mem_cons_self
      · exact ih fun other hother => h other (List.mem_cons_of_mem _ hother)

/-- Turns of different names, each with a clone under its own name at most and none where a directory is
there, clone every name once at most. -/
theorem cloneOnce_of_turns (hnodup : (turns.map (·.repository.name)).Nodup)
    (hown : ∀ turn ∈ turns, (clonedNames turn.said).Sublist [turn.repository.name])
    (hthere : ∀ turn ∈ turns, turn.before.disk.exists? turn.repository.path = true → turn.said = []) :
    CloneOnce turns := by
  refine ⟨hnodup.sublist (clonedNames_flatMap hown), fun turn hturn hexists hmem => ?_⟩
  obtain ⟨e, he, hcloned⟩ := List.mem_filterMap.mp hmem
  obtain ⟨other, hother, hsaid⟩ := List.mem_flatMap.mp he
  -- the clone of a name is said in the turn of that name
  have hname : turn.repository.name = other.repository.name := by
    have hin : turn.repository.name ∈ clonedNames other.said := List.mem_filterMap.mpr ⟨e, hsaid, hcloned⟩
    exact List.mem_singleton.mp ((hown other hother).subset hin)
  have hsame : turn = other := List.inj_on_of_nodup_map hnodup hturn hother hname
  rw [← hsame, hthere turn hturn hexists] at hsaid
  cases hsaid

end Turn

namespace Checkout

variable {w : World σ} {copy : Checkout} {copies : List Checkout} {s : Session σ}

theorem clonedNames_turn (copy : Checkout) (w : World σ) (s : Session σ) :
    (clonedNames (copy.turn (·.clone w) s).said).Sublist [copy.repository.name] :=
  (copy.turn_sends (·.clone w) Repository.clone_sends s).2.clonedNames_sublist

/-- Nothing is said where the directory is there. -/
theorem said_turn_of_exists (h : s.disk.exists? copy.repository.path = true) :
    (copy.turn (·.clone w) s).said = [] := by
  apply Turn.said_eq (w := w)
  have hfinish : (copy.repository.clone w).finish { current := copy.current, session := s } =
      (.ok (), { current := copy.current,
                 session := (Session.tell (.alreadyCloned copy.repository.address) s).2 }) := by
    have hget : (get : Git σ (Desk σ)).finish { current := copy.current, session := s } =
        (.ok { current := copy.current, session := s }, { current := copy.current, session := s }) := rfl
    unfold Repository.clone
    rw [Git.finish_bind, hget]
    dsimp only
    rw [if_pos h]
    rfl
  rw [turn, perform_eq, hfinish]
  exact .nothing rfl rfl

/-- Turns at being cloned of repositories of a run clone every name once at most, whatever sessions they
begin in. -/
theorem cloneOnce_of_clones {turns : List (Turn σ)} {specs : List RepositorySpec} {location : Path}
    (hsub : (turns.map (·.repository)).Sublist (Repository.ofSpecs specs location))
    (hturns : ∀ taken ∈ turns, ∃ copy s, taken = turn (·.clone w) copy s) : Turn.CloneOnce turns := by
  apply Turn.cloneOnce_of_turns
  · have hnames := (Repository.nodup_names specs location).sublist (hsub.map (·.name))
    rwa [List.map_map] at hnames
  · intro taken htaken
    obtain ⟨copy, s, rfl⟩ := hturns taken htaken
    exact clonedNames_turn copy w s
  · intro taken htaken hexists
    obtain ⟨copy, s, rfl⟩ := hturns taken htaken
    exact said_turn_of_exists hexists

/-- Turns at being cloned that begin each in a session of its own, as they do when they are taken at the
same time. -/
def clonesAt (w : World σ) (specs : List RepositorySpec) (location : Path)
    (start : Repository → Session σ) : List (Turn σ) :=
  (Repository.ofSpecs specs location).map fun r => turn (·.clone w) { repository := r } (start r)

theorem clonesAt_apart (w : World σ) (specs : List RepositorySpec) (location : Path)
    (start : Repository → Session σ) :
    Repository.Apart specs location ((clonesAt w specs location start).map (·.repository)) ∧
      Turn.CloneOnce (clonesAt w specs location start) := by
  have hsub : ((clonesAt w specs location start).map (·.repository)).Sublist
      (Repository.ofSpecs specs location) := by
    rw [clonesAt, List.map_map]
    exact (List.map_id _).symm ▸ .refl _
  refine ⟨Repository.apart_of_sublist hsub, cloneOnce_of_clones (w := w) hsub fun taken htaken => ?_⟩
  obtain ⟨r, -, rfl⟩ := List.mem_map.mp htaken
  exact ⟨_, _, rfl⟩

/-- Cloning is a row of turns of repositories of the run: of all of them, unless it fails. -/
theorem exists_clones (w : World σ) (specs : List RepositorySpec) (location : Path) (s : Session σ) :
    ∃ turns : List (Turn σ), Turn.Accounts w s turns (cloneAll w specs location s).2 ∧
      (turns.map (·.repository)).Sublist (Repository.ofSpecs specs location) ∧
      (∀ taken ∈ turns, ∃ copy s', taken = turn (·.clone w) copy s') ∧
      ∀ copies, (cloneAll w specs location s).1 = .ok copies →
        copies = Turn.kept turns ∧ turns.map (·.repository) = Repository.ofSpecs specs location := by
  cases hlocation : (s.disk.makeDirs location).1 with
  | error cause =>
      obtain ⟨hreturned, haccounts⟩ := cloneAll_of_error w specs hlocation
      refine ⟨[], haccounts, List.nil_sublist _, List.forall_mem_nil _, fun copies hcopies => ?_⟩
      cases hreturned.symm.trans hcopies
  | ok _ =>
      obtain ⟨hreturned, haccounts⟩ := cloneAll_accounts w specs hlocation
      have hrepositories : (clones w specs location s).map (·.repository) =
          Repository.ofSpecs specs location := (clone_takes w).repositories_row_fresh _ _
      refine ⟨clones w specs location s, haccounts, ?_, ?_, fun copies hcopies => ?_⟩
      · rw [hrepositories]
      · intro taken htaken
        obtain ⟨copy, -, s', rfl⟩ := Turn.exists_of_mem_row htaken
        exact ⟨copy, s', rfl⟩
      · cases hreturned.symm.trans hcopies
        exact ⟨rfl, hrepositories⟩

/-- The turns at being prepared clone nothing. -/
theorem clonedNames_prepare (w : World σ) (working : String) (copies : List Checkout) (s : Session σ) :
    clonedNames ((Turn.row (turn (·.prepare w working)) copies s).flatMap (·.said)) = [] := by
  have hnone : ∀ taken ∈ Turn.row (turn (·.prepare w working)) copies s, clonedNames taken.said = [] := by
    intro taken htaken
    obtain ⟨copy, -, s', rfl⟩ := Turn.exists_of_mem_row htaken
    exact (copy.turn_sends (·.prepare w working) (Repository.prepare_sends working) s').2.clonedNames_eq
  apply List.filterMap_eq_nil_iff.mpr
  intro e he
  obtain ⟨turn, hturn, hsaid⟩ := List.mem_flatMap.mp he
  exact List.filterMap_eq_nil_iff.mp (hnone turn hturn) e hsaid

/-- Preparing is a row of turns that clone nothing. -/
theorem prepareAll_accounts (w : World σ) (working : String) (copies : List Checkout) (s : Session σ) :
    ∃ turns : List (Turn σ), Turn.Accounts w s turns (prepareAll w copies working s).2 ∧
      turns.map (·.repository) = copies.map (·.repository) ∧
      clonedNames (turns.flatMap (·.said)) = [] := by
  refine ⟨Turn.row (turn (·.prepare w working)) copies s, ?_, ?_, clonedNames_prepare w working copies s⟩
  · rw [prepareAll, keepAll_eq_row]
    exact (prepare_takes w working).row_accounts copies s
  · exact (prepare_takes w working).repositories_row copies s

/-- **Checkouts are pairwise distinct and cloned once.** All that is said while cloning is said in turns,
which work in directories of their own; no name is cloned twice, and none whose directory was there when
its turn came. This does not depend on the order of the turns: it holds wherever each of them begins. What
is returned comes from some of the turns, in their order. Preparing keeps some of it in this order, again
in turns that work in directories of their own, and clones nothing. -/
theorem cloneAll_distinct (w : World σ) (specs : List RepositorySpec) (location : Path) (s : Session σ)
    (working : String) (s' : Session σ) :
    (∀ start : Repository → Session σ,
      Repository.Apart specs location ((clonesAt w specs location start).map (·.repository)) ∧
      Turn.CloneOnce (clonesAt w specs location start)) ∧
    ∃ turns : List (Turn σ), Turn.Accounts w s turns (cloneAll w specs location s).2 ∧
      Repository.Apart specs location (turns.map (·.repository)) ∧ Turn.CloneOnce turns ∧
      ∀ copies, (cloneAll w specs location s).1 = .ok copies →
        (∀ r position, Repository.FirstAt specs location r position → r ∈ turns.map (·.repository)) ∧
        copies = Turn.kept turns ∧ Repository.Apart specs location (copies.map (·.repository)) ∧
        ((prepareAll w copies working s').1.map (·.repository)).Sublist (copies.map (·.repository)) ∧
        ∃ later : List (Turn σ), Turn.Accounts w s' later (prepareAll w copies working s').2 ∧
          later.map (·.repository) = copies.map (·.repository) ∧
          clonedNames (later.flatMap (·.said)) = [] := by
  refine ⟨clonesAt_apart w specs location, ?_⟩
  obtain ⟨turns, haccounts, hsub, hturns, hreturned⟩ := exists_clones w specs location s
  refine ⟨turns, haccounts, Repository.apart_of_sublist hsub, cloneOnce_of_clones hsub hturns, ?_⟩
  intro copies hcopies
  obtain ⟨rfl, hall⟩ := hreturned copies hcopies
  have hkept : ((Turn.kept turns).map (·.repository)).Sublist (Repository.ofSpecs specs location) := by
    refine (Turn.repositories_kept (w := w) fun taken htaken => ?_).trans hsub
    obtain ⟨copy, s', rfl⟩ := hturns taken htaken
    exact (clone_takes w).sound copy s'
  refine ⟨fun r position hr => ?_, rfl, Repository.apart_of_sublist hkept, keepAll_sublist _ _ _,
    prepareAll_accounts w working _ s'⟩
  rw [hall]
  exact Repository.mem_ofSpecs_of_firstAt hr

/-- The first of two entries of one name is returned, and a third entry cannot be cloned. -/
theorem cloneAll_distinct_requested :
    ∃ copies, (cloneAll refusing requested ⟨"/ws"⟩ { disk := {}, outside := () }).1 = .ok copies ∧
      copies.map (·.repository.address) = ["git@host:acme/web.git"] ∧
      Repository.Apart requested ⟨"/ws"⟩ (copies.map (·.repository)) := by
  have hview : (cloneAll refusing requested ⟨"/ws"⟩ { disk := {}, outside := () }).1.toOption.map
      (·.map (·.repository.address)) = some ["git@host:acme/web.git"] := by decide +kernel
  obtain ⟨-, turns, -, -, -, hall⟩ := cloneAll_distinct refusing requested ⟨"/ws"⟩
    { disk := {}, outside := () } "codemods/greet" { disk := {}, outside := () }
  cases hclone : (cloneAll refusing requested ⟨"/ws"⟩ { disk := {}, outside := () }).1 with
  | error fault => simp [hclone, Except.toOption] at hview
  | ok copies =>
      obtain ⟨-, -, hapart, -⟩ := hall copies hclone
      exact ⟨copies, rfl, by simpa [hclone, Except.toOption] using hview, hapart⟩

end Checkout

end CodeSweep
