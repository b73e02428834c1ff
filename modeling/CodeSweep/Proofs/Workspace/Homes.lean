import CodeSweep.Proofs.Git.Run
import CodeSweep.Proofs.Text.Ending
import CodeSweep.Proofs.Workspace.Lexical

/-! # Where an address puts its repository

A repository lives in the directory of its name, and its name is read off the end of its address, where
an extension is taken off (`nameOf?_eq_some_iff`):

    git@host:acme/  web  .git  //
         before     name  ext  slashes

A name is never empty and has no slash in it, but it may be one or two dots: what is left of `..git` is
`.`, and what is left of `...git` is `..` (`nameOf?_eq_dots_iff`). Such a repository is put into the
directory that it is seen from, or around it; any other is put into an entry of that directory
(`ofAddress?_inside`). -/

namespace CodeSweep

/-! ## The end of an address -/

namespace Repository

variable {address : String} {cs last : List Char} {name : String} {cwd : Path} {tags : List String}
  {r : Repository}

/-- What an address ends in, but for slashes: the part after the last slash before those. -/
structure EndsIn (cs last : List Char) : Prop where
  unbroken : '/' ∉ last
  parted : ∃ before slashes, cs = before ++ last ++ slashes ∧ Text.StartsAfter '/' before ∧
    (∀ c ∈ slashes, c = '/') ∧ (last = [] → before = [])

theorem endsIn_iff : EndsIn cs last ↔
    (Text.pieces '/' (Text.dropTrailing (· == '/') cs)).getLast? = some last := by
  rw [Text.getLast?_pieces_iff]
  constructor
  · rintro ⟨hlast, before, slashes, rfl, hbefore, hslashes, hempty⟩
    refine ⟨hlast, before, ?_, hbefore⟩
    apply Text.dropTrailing_append
    · intro c hc
      have hne : last ≠ [] := by
        intro hnil
        rw [hempty hnil, hnil] at hc
        cases hc
      rw [List.getLast?_append_of_ne_nil before hne] at hc
      have hslash : c ≠ '/' := by
        rintro rfl
        exact hlast (List.mem_of_getLast? hc)
      simpa using hslash
    · intro c hc
      simp [hslashes c hc]
  · rintro ⟨hlast, before, htrimmed, hbefore⟩
    obtain ⟨hfront, slashes, hcs, hslashes⟩ := Text.dropTrailing_eq_iff.mp htrimmed
    refine ⟨hlast, before, slashes, hcs, hbefore, fun c hc => by simpa using hslashes c hc, ?_⟩
    rintro rfl
    rcases hbefore with hnil | hslash
    · exact hnil
    -- a slash at the end of what stands before would have been taken off
    · rw [List.append_nil] at hfront
      have hnot := hfront '/' hslash
      cases hnot

theorem exists_endsIn (cs : List Char) : ∃ last, EndsIn cs last := by
  obtain ⟨last, hlast⟩ := Option.ne_none_iff_exists'.mp fun hnone =>
    Text.pieces_ne_nil '/' (Text.dropTrailing (· == '/') cs) (List.getLast?_eq_none_iff.mp hnone)
  exact ⟨last, endsIn_iff.mpr hlast⟩

/-- The last part of an address without an extension. -/
def IsStem (stem last : List Char) : Prop :=
  '.' ∉ last ∧ last = stem ∨ ∃ ext, '.' ∉ ext ∧ last = stem ++ '.' :: ext

theorem isStem_iff {stem : List Char} :
    IsStem stem last ↔ ((Text.splitLast? '.' last).map (·.1)).getD last = stem := by
  unfold IsStem
  cases hsplit : Text.splitLast? '.' last with
  | none =>
      have hdot : '.' ∉ last := Text.splitLast?_eq_none_iff.mp hsplit
      constructor
      · rintro (⟨-, rfl⟩ | ⟨ext, -, rfl⟩)
        · rfl
        · exact absurd (by simp) hdot
      · rintro rfl
        exact .inl ⟨hdot, rfl⟩
  | some parts =>
      obtain ⟨before, after⟩ := parts
      obtain ⟨hlast, hafter⟩ := Text.splitLast?_eq_some_iff.mp hsplit
      constructor
      · rintro (⟨hdot, -⟩ | ⟨ext, hext, heq⟩)
        · exact absurd (by simp [hlast]) hdot
        · have hsame := hsplit.symm.trans (Text.splitLast?_eq_some_iff.mpr ⟨heq, hext⟩)
          cases hsame
          rfl
      · rintro rfl
        exact .inr ⟨after, hafter, hlast⟩

/-- **The name of a repository is what its address ends in, without an extension.** -/
theorem nameOf?_eq_some_iff : nameOf? address = some name ↔
    name ≠ "" ∧ ∃ last, EndsIn address.toList last ∧ IsStem name.toList last := by
  obtain ⟨last, hends⟩ := exists_endsIn address.toList
  have hpiece := endsIn_iff.mp hends
  have hunique : ∀ other, EndsIn address.toList other ↔ other = last := by
    intro other
    rw [endsIn_iff, hpiece, Option.some.injEq, eq_comm]
  simp only [hunique, exists_eq_left, isStem_iff, nameOf?, hpiece, Option.getD_some]
  split
  next hempty =>
    have hnil := List.isEmpty_iff.mp hempty
    rw [hnil]
    constructor
    · exact nofun
    · rintro ⟨hne, hname⟩
      exact absurd (String.toList_eq_nil_iff.mp hname.symm) hne
  next hne =>
    constructor
    · intro h
      cases h
      exact ⟨by simpa using hne, by rw [String.toList_ofList]⟩
    · rintro ⟨-, hname⟩
      rw [hname, String.ofList_toList]

/-- The address ends in nothing, or in nothing but an extension. -/
def Nameless (address : String) : Prop := ∃ last, EndsIn address.toList last ∧ IsStem [] last

/-- Only such an address gives no name. -/
theorem nameOf?_eq_none_iff : nameOf? address = none ↔ Nameless address := by
  constructor
  · intro hnone
    obtain ⟨last, hends⟩ := exists_endsIn address.toList
    refine ⟨last, hends, isStem_iff.mpr ?_⟩
    simp only [nameOf?, endsIn_iff.mp hends, Option.getD_some] at hnone
    split at hnone
    next hempty => exact List.isEmpty_iff.mp hempty
    next => cases hnone
  · rintro ⟨last, hends, hstem⟩
    simp [nameOf?, endsIn_iff.mp hends, isStem_iff.mp hstem]

/-! ## Names that are dots -/

/-- The address ends in `n` dots, one more, and an extension without dots. -/
def EndsInDots (n : Nat) (address : String) : Prop :=
  ∃ ext, '.' ∉ ext ∧ EndsIn address.toList (List.replicate n '.' ++ '.' :: ext)

/-- Only taking off an extension leaves nothing but dots. -/
theorem nameOf?_eq_dots_iff {n : Nat} (hn : n ≠ 0) :
    nameOf? address = some (String.ofList (List.replicate n '.')) ↔ EndsInDots n address := by
  have hne : String.ofList (List.replicate n '.') ≠ "" := by
    intro h
    exact hn (by simpa [String.ofList_eq_empty_iff] using h)
  rw [nameOf?_eq_some_iff, String.toList_ofList]
  constructor
  · rintro ⟨-, last, hends, ⟨hdot, rfl⟩ | ⟨ext, hext, rfl⟩⟩
    · exact absurd (List.mem_replicate.mpr ⟨hn, rfl⟩) hdot
    · exact ⟨ext, hext, hends⟩
  · rintro ⟨ext, hext, hends⟩
    exact ⟨hne, _, hends, .inr ⟨ext, hext, rfl⟩⟩

/-! ## Directories -/

/-- A repository keeps to a directory: it has a name, and lives in the entry of that name. -/
structure KeepsTo (r : Repository) (cwd : Path) : Prop where
  named : r.name ≠ ""
  unbroken : '/' ∉ r.name.toList
  not_here : r.name ≠ "."
  not_up : r.name ≠ ".."
  child : r.path.components = cwd.components ++ [.name r.name]

theorem keepsTo_iff (h : ofAddress? address cwd tags = some r) :
    r.KeepsTo cwd ↔ r.name ≠ "." ∧ r.name ≠ ".." := by
  obtain ⟨name, hname, rfl⟩ := Option.map_eq_some_iff.mp h
  obtain ⟨hne, hslash⟩ := nameOf?_spec hname
  constructor
  · intro hkeeps
    exact ⟨hkeeps.not_here, hkeeps.not_up⟩
  · rintro ⟨hhere, hup⟩
    have hentry : Listing.isEntryName name = true :=
      Listing.isEntryName_iff.mpr ⟨hne, hhere, hup, hslash⟩
    exact ⟨hne, hslash, hhere, hup, Path.components_child_of_entry hentry⟩

end Repository

/-- A child leads on from where its directory leads. -/
theorem Path.resolve_child {p : Path} {name : String} {here : Location} (hname : '/' ∉ name.toList) :
    resolve here (p.child name).components = resolve (resolve here p.components) (components ⟨name⟩) := by
  by_cases htext : p.text = ""
  · have hchild : p.child name = ⟨name⟩ := by
      simp [child, join, not_isAbsolute hname, htext]
    have hnone : p.components = [] := by
      simp [components, htext, isAbsolute, Text.pieces, ofPiece]
    rw [hchild, hnone]
    rfl
  · exact resolve_join htext

namespace Repository

/-- **A repository lives in an entry of the directory that it is seen from, unless its address ends in
two or three dots and an extension.** Then it lives in that directory itself, or around it. -/
theorem ofAddress?_inside (address : String) (cwd : Path) (tags : List String) (r : Repository)
    (h : ofAddress? address cwd tags = some r) :
    (r.name ≠ "" ∧ '/' ∉ r.name.toList) ∧
      (r.KeepsTo cwd ↔ ¬ EndsInDots 1 address ∧ ¬ EndsInDots 2 address) ∧
      ∀ start, (EndsInDots 1 address →
          Path.resolve start r.path.components = Path.resolve start cwd.components) ∧
        (EndsInDots 2 address →
          Path.resolve start r.path.components = (Path.resolve start cwd.components).dropLast) := by
  rw [keepsTo_iff h]
  obtain ⟨name, hname, rfl⟩ := Option.map_eq_some_iff.mp h
  obtain ⟨hne, hslash⟩ := nameOf?_spec hname
  have hdots : ∀ n, n ≠ 0 → (EndsInDots n address ↔ name = String.ofList (List.replicate n '.')) := by
    intro n hn
    rw [← nameOf?_eq_dots_iff hn, hname, Option.some.injEq]
  rw [hdots 1 (by decide), hdots 2 (by decide)]
  refine ⟨⟨hne, hslash⟩, Iff.rfl, fun start => ⟨?_, ?_⟩⟩
  · intro hhere
    show Path.resolve start (cwd.child name).components = _
    rw [Path.resolve_child hslash, hhere]
    rfl
  · intro hup
    show Path.resolve start (cwd.child name).components = _
    rw [Path.resolve_child hslash, hup]
    rfl

/-- An address with a dot in its name, and slashes at the end. -/
theorem ofAddress?_inside_dotted :
    ∃ r, ofAddress? "https://host/acme/my.repo.git//" ⟨"/ws/greet/"⟩ [] = some r ∧
      r.name = "my.repo" ∧ r.path = ⟨"/ws/greet/my.repo"⟩ ∧ r.KeepsTo ⟨"/ws/greet/"⟩ := by
  have hname : nameOf? "https://host/acme/my.repo.git//" = some "my.repo" := by decide +kernel
  have h : ofAddress? "https://host/acme/my.repo.git//" ⟨"/ws/greet/"⟩ [] =
      some ⟨"my.repo", "https://host/acme/my.repo.git//", ⟨"/ws/greet/my.repo"⟩, []⟩ := by
    rw [ofAddress?, hname]
    decide +kernel
  obtain ⟨-, hkeeps, -⟩ := ofAddress?_inside _ _ _ _ h
  refine ⟨_, h, rfl, rfl, ?_⟩
  rw [hkeeps, ← nameOf?_eq_dots_iff (by decide), ← nameOf?_eq_dots_iff (by decide), hname]
  decide +kernel

/-- A world in which every command succeeds. -/
def obliging : World Unit where
  run _ state := (.ok {}, state)
  hosting := .gh

/-- A codemod's working directory in a workspace. -/
def workspace : Session Unit where
  disk := { root := .dir "ws" true (.dir "greet" true .empty .empty) .empty, proper := by decide }
  outside := ()

/-- The commands of a transcript, with the directories that they are run in. -/
def commandsOf (t : List Exchange) : List (Path × List String) :=
  t.filterMap fun
    | .command c _ => some (c.cwd, c.args)
    | _ => none

/-- An address with dots before its extension gives a repository that lives around the directory it is
seen from: it is not cloned, and what is thrown away is what lies there. -/
theorem ofAddress?_escapes :
    ∃ r, ofAddress? "git@host:acme/...git" ⟨"/ws/greet"⟩ [] = some r ∧ r.name = ".." ∧
      ¬ r.KeepsTo ⟨"/ws/greet"⟩ ∧ r.path.place = ["ws"] ∧
      commandsOf ((do r.clone obliging; r.resetAndFetch obliging : Git Unit Unit).finish
          { current := none, session := workspace }).2.session.transcript =
        [(⟨"/ws/greet/.."⟩, ["add", "."]), (⟨"/ws/greet/.."⟩, ["reset", "--hard"]),
          (⟨"/ws/greet/.."⟩, ["fetch"])] := by
  refine ⟨⟨"..", "git@host:acme/...git", ⟨"/ws/greet/.."⟩, []⟩, by decide +kernel, rfl, ?_, by decide +kernel,
    by decide +kernel⟩
  intro hkeeps
  exact hkeeps.not_up rfl

end Repository

end CodeSweep
