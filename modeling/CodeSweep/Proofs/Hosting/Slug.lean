import CodeSweep.Hosting
import CodeSweep.Proofs.Git.Listing
import CodeSweep.Proofs.Text.Ending
import CodeSweep.Proofs.Text.Search

/-! # Owners and names are read off addresses

The printer beside the reader of remote addresses. An address names a repository by its host, its owner
and its own name, and is written in one of two forms,

    host:owner/repo        scheme://host[:port]/owner/repo

either of them with or without the suffix `.git`, with any number of slashes at the end, and surrounded
by any white space. A `Spelling` is one choice of all that.

Whatever the spelling, the slug is read back (`parse?_write`), and what is read off any text at all is a
slug with two names in it (`names_of_parse?`). -/

namespace CodeSweep

namespace Text

/-- A text with too few of one character cannot read `needle` anywhere. -/
theorem splitFirst?_eq_none_of_count {c : Char} {needle cs : List Char}
    (h : cs.count c < needle.count c) :
    splitFirst? needle cs = none := by
  by_contra hsome
  obtain ⟨⟨before, after⟩, hsplit⟩ := Option.ne_none_iff_exists'.mp hsome
  rw [splitFirst?_eq_some hsplit, List.count_append, List.count_append] at h
  omega

end Text

namespace RepoSlug

open Text

/-- The suffix that a repository's name may have in an address. -/
def suffix : List Char := ['.', 'g', 'i', 't']

/-- A slug that an address can show: owner and repository have names without slashes, and that of the
repository ends neither in white space nor in the suffix. -/
structure Named (slug : RepoSlug) : Prop where
  owner_ne : slug.owner ≠ ""
  owner_unslashed : '/' ∉ slug.owner.toList
  repo_ne : slug.repo ≠ ""
  repo_unslashed : '/' ∉ slug.repo.toList
  repo_trimmed : ∀ c ∈ slug.repo.toList.getLast?, isBlank c = false
  repo_bare : ¬ suffix <:+ slug.repo.toList

/-- The path that names a repository. -/
def path (slug : RepoSlug) : List Char := slug.owner.toList ++ '/' :: slug.repo.toList

/-- Where a path is looked up, and in which form the address says so. A host may have a user in front of
it. -/
inductive Remote where
  | scp (host : String)
  | url (scheme host : String) (port : Option String)

namespace Remote

/-- What stands before the first colon. -/
def lead : Remote → List Char
  | scp host => host.toList
  | url scheme _ _ => scheme.toList

/-- Host and port, as an address with a scheme shows them. -/
def authority (host : String) (port : Option String) : List Char :=
  host.toList ++ (port.elim [] fun port => ':' :: port.toList)

/-- What stands between the first colon and the path. -/
def middle : Remote → List Char
  | scp _ => []
  | url _ host port => '/' :: '/' :: (authority host port ++ ['/'])

/-- What names a repository in an address, where `lead` stands before the first colon. -/
def core (remote : Remote) (slug : RepoSlug) (lead : List Char) : List Char :=
  lead ++ ':' :: (remote.middle ++ slug.path)

/-- A host without slashes and colons, a scheme without colons, a port without slashes. -/
inductive Plain : Remote → Prop
  | scp {host} (hslash : '/' ∉ host.toList) (hcolon : ':' ∉ host.toList) : Plain (.scp host)
  | url {scheme host port} (hscheme : ':' ∉ scheme.toList) (hslash : '/' ∉ host.toList)
      (hport : ∀ p ∈ port, '/' ∉ p.toList) : Plain (.url scheme host port)

end Remote

/-- A way to write an address. -/
structure Spelling where
  before : List Char
  remote : Remote
  suffixed : Bool
  slashes : Nat
  after : List Char

namespace Spelling

/-- The address of a slug in this spelling. -/
def write (s : Spelling) (slug : RepoSlug) : String :=
  String.ofList (s.before ++ (s.remote.core slug s.remote.lead ++
    (if s.suffixed then suffix else []) ++ List.replicate s.slashes '/') ++ s.after)

/-- Nothing but white space surrounds the address. -/
structure Proper (s : Spelling) : Prop where
  before : ∀ c ∈ s.before, isBlank c = true
  remote : s.remote.Plain
  after : ∀ c ∈ s.after, isBlank c = true

end Spelling

section Reading

variable {slug : RepoSlug} {remote : Remote} {lead : List Char}

/-! ## The path -/

theorem pieces_path (h : slug.Named) :
    pieces '/' slug.path = [slug.owner.toList, slug.repo.toList] := by
  rw [path, pieces_append, pieces_of_not_mem h.owner_unslashed, pieces_of_not_mem h.repo_unslashed]
  rfl

theorem count_path (h : slug.Named) : slug.path.count '/' = 1 := by
  rw [path, List.count_append, List.count_cons_self, List.count_eq_zero.mpr h.owner_unslashed,
    List.count_eq_zero.mpr h.repo_unslashed]

/-- The path is found behind what names the host, also where white space was taken off in front. -/
theorem pathOf?_write (hremote : remote.Plain) (h : slug.Named)
    (hlead : ∀ c ∈ lead, isBlank c = true ∨ c ∈ remote.lead) :
    pathOf? (remote.core slug lead) = some slug.path := by
  have hcolon : ':' ∉ remote.lead → ':' ∉ lead := by
    intro hnot hmem
    rcases hlead ':' hmem with hblank | hmem
    · exact absurd hblank (by decide)
    · exact hnot hmem
  cases hremote with
  | @scp host hslash hhost =>
      have hlead' : lead.count '/' = 0 := by
        apply List.count_eq_zero.mpr
        intro hmem
        rcases hlead '/' hmem with hblank | hmem
        · exact absurd hblank (by decide)
        · exact hslash hmem
      -- the one slash of the address is in the path, so that there is no scheme
      have hplain : splitFirst? [':', '/', '/'] (lead ++ ':' :: slug.path) = none := by
        apply splitFirst?_eq_none_of_count (c := '/')
        rw [List.count_append, hlead', List.count_cons_of_ne (by decide), count_path h]
        decide
      have hfirst : splitFirst? [':'] (lead ++ ':' :: slug.path) = some (lead, slug.path) :=
        splitFirst?_append (hcolon hhost) slug.path
      show pathOf? (lead ++ ':' :: slug.path) = some slug.path
      rw [pathOf?, hplain, hfirst]
  | @url scheme host port hscheme hslash hport =>
      have hauthority : '/' ∉ Remote.authority host port := by
        intro hmem
        rcases List.mem_append.mp hmem with hmem | hmem
        · exact hslash hmem
        · cases port with
          | none => cases hmem
          | some p =>
              rcases List.mem_cons.mp hmem with heq | hmem
              · exact absurd heq (by decide)
              · exact hport p rfl hmem
      have hfirst : splitFirst? [':', '/', '/']
          (lead ++ ':' :: ('/' :: '/' :: (Remote.authority host port ++ ['/']) ++ slug.path)) =
          some (lead, Remote.authority host port ++ ['/'] ++ slug.path) :=
        splitFirst?_append (hcolon hscheme) _
      have hpath : splitFirst? ['/'] (Remote.authority host port ++ ['/'] ++ slug.path) =
          some (Remote.authority host port, slug.path) := by
        rw [List.append_assoc]
        exact splitFirst?_append hauthority slug.path
      rw [Remote.core, Remote.middle, pathOf?, hfirst]
      exact congrArg (Option.map (·.2)) hpath

/-! ## What surrounds it -/

/-- The name of the repository ends an address. -/
theorem suffix_core (remote : Remote) (slug : RepoSlug) (lead : List Char) :
    '/' :: slug.repo.toList <:+ remote.core slug lead := by
  refine ⟨lead ++ ':' :: (remote.middle ++ slug.owner.toList), ?_⟩
  simp [Remote.core, path]

theorem getLast?_core (h : slug.Named) :
    (remote.core slug lead).getLast? = slug.repo.toList.getLast? := by
  obtain ⟨front, hcore⟩ := suffix_core remote slug lead
  obtain ⟨c, cs, hrepo⟩ := List.exists_cons_of_ne_nil (mt String.toList_eq_nil_iff.mp h.repo_ne)
  rw [← hcore, List.getLast?_append, hrepo, List.getLast?_cons_cons, List.getLast?_cons]
  rfl

/-- Neither white space nor a slash ends an address before its slashes. -/
theorem getLast?_suffixed (h : slug.Named) (suffixed : Bool) :
    ∀ c ∈ (remote.core slug lead ++ if suffixed then suffix else []).getLast?,
      isBlank c = false ∧ c ≠ '/' := by
  intro c hc
  cases suffixed with
  | true =>
      have hlast : c = 't' := by
        rw [if_pos rfl, List.getLast?_append] at hc
        exact (Option.some.inj hc).symm
      rw [hlast]
      decide
  | false =>
      rw [if_neg Bool.false_ne_true, List.append_nil, getLast?_core h] at hc
      refine ⟨h.repo_trimmed c hc, fun hslash => ?_⟩
      exact h.repo_unslashed (hslash ▸ List.mem_of_getLast? hc)

/-- The suffix is taken off where it was put on, and nowhere else. -/
theorem dropEnding?_suffixed (h : slug.Named) (suffixed : Bool) :
    (dropEnding? suffix (remote.core slug lead ++ if suffixed then suffix else [])).getD
      (remote.core slug lead ++ if suffixed then suffix else []) = remote.core slug lead := by
  cases suffixed with
  | true =>
      rw [if_pos rfl, dropEnding?_eq_some_iff.mpr rfl]
      rfl
  | false =>
      have hnone : dropEnding? suffix (remote.core slug lead) = none := by
        by_contra hsome
        obtain ⟨front, hfront⟩ := Option.ne_none_iff_exists'.mp hsome
        have hsuffix : suffix <:+ remote.core slug lead :=
          ⟨front, (dropEnding?_eq_some_iff.mp hfront).symm⟩
        -- there is no slash in the suffix, so it would end the name of the repository
        rcases List.suffix_or_suffix_of_suffix hsuffix (suffix_core remote slug lead) with hin | hover
        · rcases List.suffix_cons_iff.mp hin with heq | hrepo
          · exact absurd (List.cons.inj heq).1 (by decide)
          · exact h.repo_bare hrepo
        · exact absurd (hover.subset List.mem_cons_self) (by decide)
      rw [if_neg Bool.false_ne_true, List.append_nil, hnone]
      rfl

/-- What is left of an address without the white space around it and the slashes at its end. -/
theorem dropTrailing_write {s : Spelling} (hs : s.Proper) (h : slug.Named) :
    dropTrailing (· == '/') (trimChars (s.write slug).toList) =
      s.remote.core slug (dropLeading isBlank (s.before ++ s.remote.lead)) ++
        if s.suffixed then suffix else [] := by
  have hkept : ∀ c ∈ (s.remote.core slug (dropLeading isBlank (s.before ++ s.remote.lead)) ++
      if s.suffixed then suffix else []).getLast?, isBlank c = false ∧ c ≠ '/' :=
    getLast?_suffixed h s.suffixed
  have hlead : dropLeading isBlank (s.write slug).toList =
      s.remote.core slug (dropLeading isBlank (s.before ++ s.remote.lead)) ++
        (if s.suffixed then suffix else []) ++ List.replicate s.slashes '/' ++ s.after := by
    have hcolon : isBlank ':' = false := by decide
    simp only [Spelling.write, Remote.core, String.toList_ofList, List.append_assoc, List.cons_append]
    rw [← List.append_assoc, dropLeading_append_cons hcolon]
  rw [trimChars, hlead, dropTrailing_append _ hs.after, dropTrailing_append]
  · intro c hc
    simpa using (hkept c hc).2
  · intro c hc
    exact beq_iff_eq.mpr (List.eq_of_mem_replicate hc)
  · intro c hc
    cases hn : s.slashes with
    | zero =>
        rw [hn, List.replicate_zero, List.append_nil] at hc
        exact (hkept c hc).1
    | succ n =>
        have hslash : c = '/' := by
          rw [hn, List.replicate_succ', ← List.append_assoc, List.getLast?_concat] at hc
          exact (Option.some.inj hc).symm
        rw [hslash]
        decide

theorem parse?_of_spelling {s : Spelling} (hs : s.Proper) (h : slug.Named) :
    parse? (s.write slug) = some slug := by
  have hlead : ∀ c ∈ dropLeading isBlank (s.before ++ s.remote.lead),
      isBlank c = true ∨ c ∈ s.remote.lead := by
    intro c hc
    rcases List.mem_append.mp (dropLeading_subset hc) with hmem | hmem
    · exact .inl (hs.before c hmem)
    · exact .inr hmem
  have hpath := pathOf?_write hs.remote h hlead
  have howner : slug.owner.toList ≠ [] := mt String.toList_eq_nil_iff.mp h.owner_ne
  have hrepo : slug.repo.toList ≠ [] := mt String.toList_eq_nil_iff.mp h.repo_ne
  have hnames : ([slug.owner.toList, slug.repo.toList].filter (!·.isEmpty)).reverse =
      [slug.repo.toList, slug.owner.toList] := by
    simp [howner, hrepo]
  unfold parse?
  rw [dropTrailing_write hs h]
  show (pathOf? ((dropEnding? suffix _).getD _)).bind _ = _
  rw [dropEnding?_suffixed h, hpath, Option.bind_some, pieces_path h, hnames]
  simp

/-- What is read off any address has two names in it. -/
theorem names_of_parse? {address : String} (h : parse? address = some slug) :
    (slug.owner ≠ "" ∧ '/' ∉ slug.owner.toList) ∧ slug.repo ≠ "" ∧ '/' ∉ slug.repo.toList := by
  obtain ⟨path, -, hread⟩ := Option.bind_eq_some_iff.mp h
  have hname : ∀ piece ∈ ((pieces '/' path).filter (!·.isEmpty)).reverse,
      String.ofList piece ≠ "" ∧ '/' ∉ (String.ofList piece).toList := by
    intro piece hpiece
    obtain ⟨hmem, hne⟩ := List.mem_filter.mp (List.mem_reverse.mp hpiece)
    rw [String.toList_ofList]
    refine ⟨fun hempty => ?_, not_mem_of_mem_pieces hmem⟩
    rw [String.ofList_eq_empty_iff.mp hempty] at hne
    cases hne
  split at hread
  next repo owner more hpieces =>
    cases hread
    rw [hpieces] at hname
    exact ⟨hname owner (by simp), hname repo (by simp)⟩
  next => cases hread

end Reading

/-- **Addresses are read back.** The slug is read off every spelling of its address, and two names
without slashes are read off every address off which anything is read. -/
theorem parse?_write :
    (∀ (slug : RepoSlug) (s : Spelling), slug.Named → s.Proper → parse? (s.write slug) = some slug) ∧
      ∀ (address : String) (slug : RepoSlug), parse? address = some slug →
        (slug.owner ≠ "" ∧ '/' ∉ slug.owner.toList) ∧ slug.repo ≠ "" ∧ '/' ∉ slug.repo.toList :=
  ⟨fun _ _ hslug hs => parse?_of_spelling hs hslug, fun _ _ => names_of_parse?⟩

/-- A slug whose owner has a colon in it and whose repository has the beginning of the suffix. -/
def web : RepoSlug := { owner := "acme:eu", repo := "web.gi" }

/-- An address with all that an address may have. -/
def crowded : Spelling where
  before := [' ', '\t']
  remote := .url "git+ssh" "git@host.example" (some "8443")
  suffixed := true
  slashes := 2
  after := ['\n']

theorem parse?_write_crowded :
    web.Named ∧ crowded.Proper ∧
      crowded.write web = " \tgit+ssh://git@host.example:8443/acme:eu/web.gi.git//\n" ∧
      parse? (crowded.write web) = some web ∧ (web.owner ≠ "" ∧ '/' ∉ web.owner.toList) := by
  have hlast : ∀ c ∈ web.repo.toList.getLast?, isBlank c = false := by
    rintro c ⟨⟩
    decide
  have hweb : web.Named := ⟨by decide, by decide, by decide, by decide, hlast, by decide⟩
  have hcrowded : crowded.Proper :=
    ⟨List.all_eq_true.mp rfl, .url (by decide) (by decide) (by decide), List.all_eq_true.mp rfl⟩
  have hread := parse?_write.1 web crowded hweb hcrowded
  exact ⟨hweb, hcrowded, by decide, hread, (parse?_write.2 _ web hread).1⟩

end RepoSlug

end CodeSweep
