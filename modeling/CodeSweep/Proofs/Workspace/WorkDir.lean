import CodeSweep.Proofs.Workspace.Follow

/-! # The directory that a run works in

A run makes a directory and works on entries of it. Once made, the directory is there
(`makeDirs_opens`). Making the directory around one of its entries then changes nothing
(`makeDirs_parent`), and whether an entry is there is decided by the directory alone, unless the entry is
a link (`exists?_child_iff`). What lies under the path of an entry then lies under the entry as well
(`under_child`). -/

namespace CodeSweep

/-! ## Pieces and texts -/

namespace Text

variable {sep : Char}

theorem intercalate_append (ps qs : List (List Char)) :
    [sep].intercalate ps <+: [sep].intercalate (ps ++ qs) := by
  induction ps with
  | nil => exact List.nil_prefix
  | cons p ps ih =>
      cases ps with
      | nil => cases qs <;> simp [List.intercalate_cons_cons, List.append_assoc]
      | cons q ps =>
          rw [List.cons_append, List.cons_append, List.intercalate_cons_cons, List.intercalate_cons_cons]
          exact List.prefix_append_right_inj _ |>.mpr ih

theorem intercalate_pieces (sep : Char) (cs : List Char) : [sep].intercalate (pieces sep cs) = cs := by
  induction cs with
  | nil => simp [pieces]
  | cons c cs ih =>
      obtain ⟨p, ps, hp⟩ := List.exists_cons_of_ne_nil (pieces_ne_nil sep cs)
      rw [hp] at ih
      rw [pieces, hp]
      split
      next hc =>
        rw [List.intercalate_cons_cons, ih, hc]
        rfl
      next =>
        rw [← ih]
        cases ps <;> simp [List.intercalate_cons_cons]

theorem pieces_intercalate {ps : List (List Char)} (hne : ps ≠ []) (hps : ∀ p ∈ ps, sep ∉ p) :
    pieces sep ([sep].intercalate ps) = ps := by
  induction ps with
  | nil => exact absurd rfl hne
  | cons p ps ih =>
      have hp := hps p List.mem_cons_self
      cases ps with
      | nil => simpa using pieces_of_not_mem hp
      | cons q ps =>
          rw [List.intercalate_cons_cons, List.append_assoc, List.singleton_append, pieces_append_sep hp]
          rw [ih (List.cons_ne_nil _ _) fun p hp => hps p (List.mem_cons_of_mem _ hp)]

end Text

/-! ## The steps of a path -/

namespace Disk

variable {d made : Disk} {p : Path} {base loc : Location} {name : String} {hops : Nat}

/-- Empty pieces ask for no step. -/
theorem stepsOver_filter (p : Path) (pieces : List (List Char)) :
    stepsOver p (pieces.filter (!·.isEmpty)) = stepsOver p pieces := by
  unfold stepsOver
  congr 1
  induction pieces with
  | nil => rfl
  | cons piece rest ih =>
      cases piece with
      | nil => simpa [Step.ofPiece?] using ih
      | cons c cs =>
          rw [List.filter_cons_of_pos rfl, List.filterMap_cons, List.filterMap_cons, ih]

theorem stepsOver_append (p : Path) (pieces more : List (List Char)) :
    stepsOver p (pieces ++ more) = stepsOver p pieces ++ more.filterMap Step.ofPiece? := by
  rw [stepsOver, stepsOver, List.filterMap_append, List.append_assoc]

theorem stepsOver_stem (p : Path) : stepsOver p p.stem = stepsOver p (Text.pieces '/' p.text.toList) := by
  rw [Path.pieces_eq_stem, stepsOver_append]
  split <;> simp [Step.ofPiece?]

/-- A path ends where its pieces lead, or asks for a directory there. -/
theorem stepsOf_eq : ∃ tail : List Step, (tail = [] ∨ tail = [.directory]) ∧
    stepsOf p = stepsOver p p.stem ++ tail := by
  rw [stepsOf, stepsOver_stem]
  split
  · exact ⟨[.directory], .inr rfl, rfl⟩
  · exact ⟨[], .inl rfl, rfl⟩

/-- A component that is a name asks for the step to that name. -/
theorem Step.ofPiece?_of_name {piece : List Char} (h : Path.ofPiece piece = some (.name name)) :
    Step.ofPiece? piece = some (.name name) := by
  unfold Path.ofPiece at h
  unfold Step.ofPiece?
  split at h
  · cases h
  · split at h <;> simp_all

theorem stepsOf_child (hname : Listing.isEntryName name = true) :
    stepsOf (p.child name) = stepsOver p p.stem ++ [.name name] := by
  have hslash := Path.not_mem_of_isEntryName hname
  have hstep := Step.ofPiece?_of_name (Path.ofPiece_name hname)
  have hlast : (p.stem ++ [name.toList]).getLast? ≠ some [] := by
    intro hlast
    rw [List.getLast?_concat, Option.some.injEq] at hlast
    simp [hlast, Step.ofPiece?] at hstep
  rw [stepsOf, Path.pieces_child hslash, if_neg hlast, List.append_nil, stepsOver_append]
  simp [stepsOver, Path.isAbsolute_child hslash, hstep]

/-- Steps that stay where they are. -/
theorem eq_of_follow_here {n : Nat} (h : d.follow hops loc (List.replicate n .here) = .ok base) :
    base = loc := by
  induction n with
  | zero => simpa using h.symm
  | succ n ih =>
      rw [List.replicate_succ] at h
      exact ih (follow_here_eq_ok.mp h).2

/-! ## Directories that are there -/

/-- A path opens a directory: it leads there. The empty path opens the directory that it is followed
from. -/
def Opens (d : Disk) (p : Path) (base : Location) : Prop :=
  p.text = "" ∧ base = d.workDir ∨ d.locate p = .ok base ∧ d.isDir base = true

theorem locate_eq_ok : d.locate p = .ok base ↔
    malformed? p = none ∧ d.follow linkLimit d.workDir (stepsOf p) = .ok base := by
  unfold locate
  split <;> simp_all

/-- Where a path leads, the steps over its pieces lead. -/
theorem follow_of_locate (h : d.locate p = .ok base) :
    d.follow linkLimit d.workDir (stepsOver p p.stem) = .ok base := by
  obtain ⟨-, hfollow⟩ := locate_eq_ok.mp h
  obtain ⟨tail, htail, hsteps⟩ := stepsOf_eq (p := p)
  rw [hsteps] at hfollow
  obtain ⟨loc, hloc⟩ := follow_of_append_ok hfollow
  obtain ⟨hops, hmore⟩ := follow_append_of_ok hloc
  rw [hmore] at hfollow
  rcases htail with rfl | rfl
  · rw [hloc, ← hfollow, follow_nil]
  · rw [follow_directory] at hfollow
    split at hfollow
    · rw [hloc, ← hfollow, follow_nil]
    · cases hfollow

theorem Opens.follow (h : d.Opens p base) :
    d.follow linkLimit d.workDir (stepsOver p p.stem) = .ok base := by
  rcases h with ⟨htext, rfl⟩ | ⟨hlocate, -⟩
  · simp [stepsOver, Path.stem, htext, Text.pieces, Path.isAbsolute]
  · exact follow_of_locate hlocate

/-- A path that leads somewhere leads to the directory that it opens. -/
theorem Opens.eq_of_locate (h : d.Opens p base) (hloc : d.locate p = .ok loc) : loc = base := by
  rcases h with ⟨htext, -⟩ | ⟨hlocate, -⟩
  · obtain ⟨hformed, -⟩ := locate_eq_ok.mp hloc
    simp [malformed?, htext] at hformed
  · rw [hlocate] at hloc
    exact (Except.ok.inj hloc).symm

theorem Opens.unique (h : d.Opens p base) (h' : d.Opens p loc) : base = loc := by
  rcases h with ⟨htext, rfl⟩ | ⟨hlocate, -⟩
  · rcases h' with ⟨-, rfl⟩ | ⟨hlocate, -⟩
    · rfl
    · exact (Opens.eq_of_locate (.inl ⟨htext, rfl⟩) hlocate).symm
  · exact h'.eq_of_locate hlocate

theorem Opens.grows (h : d.Opens p base) (hgrows : d.Grows made) : made.Opens p base := by
  rcases h with ⟨htext, rfl⟩ | ⟨hlocate, hdir⟩
  · exact .inl ⟨htext, hgrows.workDir.symm⟩
  · obtain ⟨hformed, hfollow⟩ := locate_eq_ok.mp hlocate
    refine .inr ⟨locate_eq_ok.mpr ⟨hformed, ?_⟩, hgrows.isDir hdir⟩
    rw [hgrows.workDir]
    exact hgrows.follow hfollow

/-- A path that opens one directory on two disks is located alike. -/
theorem Opens.locate_congr (h : d.Opens p base) (h' : made.Opens p base) : d.locate p = made.locate p := by
  rcases h with ⟨htext, -⟩ | ⟨hlocate, -⟩
  · simp [locate, malformed?, htext]
  · rcases h' with ⟨htext, -⟩ | ⟨hlocate', -⟩
    · simp [locate, malformed?, htext]
    · rw [hlocate, hlocate']

/-- Whether an entry of an open directory is there is decided by the directory, unless it is a link. -/
theorem exists?_child_iff (h : d.Opens p base) (hname : Listing.isEntryName name = true)
    (hplain : ∀ target, d.kind? (base ++ [name]) ≠ some (.link target)) :
    d.exists? (p.child name) = true ↔ malformed? (p.child name) = none ∧
      d.kind? base = some (.dir true) ∧ name.utf8ByteSize ≤ nameLimit ∧
        (d.kind? (base ++ [name])).isSome = true := by
  obtain ⟨hops, hmore⟩ := follow_append_of_ok h.follow
  have hexists : d.exists? (p.child name) = true ↔ ∃ loc, d.locate (p.child name) = .ok loc := by
    unfold exists?
    cases d.locate (p.child name) <;> simp [Except.toBool]
  simp only [hexists, locate_eq_ok, stepsOf_child hname, hmore, follow_name_eq_ok, EntryName.ofText_string]
  constructor
  · rintro ⟨loc, hformed, hdir, hshort, kind, hkind, -⟩
    exact ⟨hformed, hdir, hshort, by simp [hkind]⟩
  · rintro ⟨hformed, hdir, hshort, hsome⟩
    obtain ⟨kind, hkind⟩ := Option.isSome_iff_exists.mp hsome
    refine ⟨base ++ [name], hformed, hdir, hshort, kind, hkind, ?_⟩
    cases kind with
    | link target => exact absurd hkind (hplain target)
    | file => exact follow_nil
    | dir listable => exact follow_nil

/-! ## Making directories -/

/-- What it takes to make a directory: the way to it is open and there is nothing at its end. -/
theorem makeDir_eq_ok (h : d.makeDir p = .ok made) : malformed? p = none ∧
    ∃ before loc name inside, stepsOver p p.stem = before ++ [.name name] ∧
      d.follow linkLimit d.workDir before = .ok loc ∧ d.search loc = .ok inside ∧
      name.utf8ByteSize ≤ nameLimit ∧ d.lookup? (loc ++ [name]) = none ∧ d.Grows made ∧
      made.lookup? (loc ++ [name]) = some (.dir true .empty) := by
  unfold makeDir at h
  split at h
  · cases h
  next hformed =>
    split at h
    · cases h
    next last before hpieces =>
      split at h
      · cases h
      next loc hloc =>
        split at h
        · cases h
        next inside name hsearch hlast =>
          split at h
          · cases h
          next hshort =>
            split at h
            · cases h
            next hfind =>
              cases h
              have hdir := search_eq_ok.mp hsearch
              have hnone : d.lookup? (loc ++ [name]) = none := by
                rw [lookup?_append hdir (List.cons_ne_nil name []), Listing.get?]
                simpa using hfind
              refine ⟨hformed, stepsOver p before.reverse, loc, name, inside, ?_, hloc, hsearch,
                Nat.not_lt.mp hshort, hnone, grows_setAt hnone, lookup?_setAt_self hdir⟩
              have hfilter : (Text.pieces '/' p.text.toList).filter (!·.isEmpty) = before.reverse ++ [last] := by
                rw [← List.reverse_reverse (List.filter _ _), hpieces, List.reverse_cons]
              rw [stepsOver_stem, ← stepsOver_filter, hfilter, stepsOver_append]
              simp [hlast]
        · cases h

theorem leadsToDir_iff : d.leadsToDir p = true ↔ ∃ base, d.locate p = .ok base ∧ d.isDir base = true := by
  unfold leadsToDir
  cases d.locate p <;> simp [Except.toOption]

/-- A directory that is there is not made. -/
theorem makeDir_of_leadsToDir (h : d.leadsToDir p = true) : ∃ cause, d.makeDir p = .error cause := by
  cases hmake : d.makeDir p with
  | error cause => exact ⟨cause, rfl⟩
  | ok made =>
      obtain ⟨base, hlocate, -⟩ := leadsToDir_iff.mp h
      obtain ⟨-, hfollow⟩ := locate_eq_ok.mp hlocate
      obtain ⟨-, before, loc, name, inside, hsteps, hloc, -, -, hnone, -⟩ := makeDir_eq_ok hmake
      obtain ⟨tail, -, htail⟩ := stepsOf_eq (p := p)
      obtain ⟨hops, hmore⟩ := follow_append_of_ok hloc
      rw [htail, hsteps, List.append_assoc, hmore, List.singleton_append] at hfollow
      -- the path leads to an entry where there is none
      obtain ⟨-, -, kind, hkind, -⟩ := follow_name_eq_ok.mp hfollow
      rw [kind?, EntryName.ofText_string, hnone] at hkind
      cases hkind

theorem makeDirs_of_leadsToDir (h : d.leadsToDir p = true) : d.makeDirs p = (.ok (), d) := by
  obtain ⟨cause, hcause⟩ := makeDir_of_leadsToDir h
  have hensure : d.ensureDir p = (.ok (), d) := by simp [ensureDir, hcause, h]
  rw [makeDirs, makeDirsFrom, hensure]
  split
  · rfl
  · rfl

/-- A directory is there once it was made. -/
theorem ensureDir_opens (h : (d.ensureDir p).1 = .ok ()) : ∃ base, (d.ensureDir p).2.Opens p base := by
  unfold ensureDir at h ⊢
  cases hmake : d.makeDir p with
  | error cause =>
      rw [hmake] at h
      dsimp only at h ⊢
      split at h
      next hleads =>
        obtain ⟨base, hbase⟩ := leadsToDir_iff.mp hleads
        exact ⟨base, .inr hbase⟩
      next => cases h
  | ok made =>
      obtain ⟨hformed, before, loc, name, inside, hsteps, hloc, hsearch, hshort, -, hgrows, hmade⟩ :=
        makeDir_eq_ok hmake
      obtain ⟨tail, htail, hall⟩ := stepsOf_eq (p := p)
      obtain ⟨hops, hmore⟩ := follow_append_of_ok (hgrows.follow hloc)
      have hkind : made.kind? (loc ++ [name]) = some (.dir true) := kind?_eq_dir.mpr ⟨_, hmade⟩
      have hdir : made.isDir (loc ++ [name]) = true := isDir_iff.mpr ⟨_, hkind⟩
      refine ⟨loc ++ [name], .inr ⟨locate_eq_ok.mpr ⟨hformed, ?_⟩, hdir⟩⟩
      rw [hall, hsteps, List.append_assoc, hgrows.workDir, hmore, List.singleton_append, follow_name_eq_ok]
      refine ⟨hgrows.kind _ _ (kind?_eq_dir.mpr ⟨_, search_eq_ok.mp hsearch⟩), hshort, _, hkind, ?_⟩
      rcases htail with rfl | rfl
      · exact follow_nil
      · show made.follow hops (loc ++ [name]) [.directory] = _
        rw [follow_directory, if_pos hdir, follow_nil]

/-- The directory itself comes last, unless one on the way to it cannot be made. -/
theorem makeDirsFrom_cases (fuel : Nat) (htext : p.text ≠ "") :
    (∃ d' : Disk, makeDirsFrom (fuel + 1) d p = d'.ensureDir p) ∨
      ∃ cause d', makeDirsFrom (fuel + 1) d p = (.error cause, d') := by
  rw [makeDirsFrom, if_neg (by simpa [String.isEmpty_iff] using htext)]
  split
  · split
    · exact .inl ⟨_, rfl⟩
    · exact .inr ⟨_, _, rfl⟩
  · exact .inl ⟨d, rfl⟩

/-- **A directory that could be made is open.** -/
theorem makeDirs_opens (h : (d.makeDirs p).1 = .ok ()) : ∃ base, (d.makeDirs p).2.Opens p base := by
  by_cases htext : p.text = ""
  · exact ⟨_, .inl ⟨htext, rfl⟩⟩
  · unfold makeDirs at h ⊢
    rcases makeDirsFrom_cases p.text.length htext with ⟨d', hlast⟩ | ⟨cause, d', herror⟩
    · rw [hlast] at h ⊢
      exact ensureDir_opens h
    · rw [herror] at h
      cases h

end Disk

/-! ## The directory around an entry -/

namespace Path

variable {p : Path} {name : String}

/-- What is trimmed off are empty pieces and lone dots, and what is left does not begin with an empty
piece. -/
theorem trimPieces_spec (ps : List (List Char)) :
    ∃ dropped, ps = dropped ++ trimPieces ps ∧ (∀ q ∈ dropped, q = [] ∨ q = ['.']) ∧
      ∀ q ∈ (trimPieces ps).head?, q ≠ [] := by
  fun_induction trimPieces ps with
  | case1 => exact ⟨[], rfl, nofun, nofun⟩
  | case2 => exact ⟨[[]], rfl, by simp, nofun⟩
  | case3 first hne => exact ⟨[], rfl, nofun, by simpa using hne⟩
  | case4 piece before hbefore hnone ih =>
      obtain ⟨dropped, hsplit, hdropped, hhead⟩ := ih
      refine ⟨piece :: dropped, by rw [List.cons_append, ← hsplit], ?_, hhead⟩
      have hpiece : piece = [] ∨ piece = ['.'] := by
        unfold ofPiece at hnone
        split at hnone
        next h => exact h
        next => split at hnone <;> simp at hnone
      simpa using ⟨hpiece, hdropped⟩
  | case5 piece before hbefore hsome =>
      refine ⟨[], rfl, nofun, ?_⟩
      rintro q ⟨⟩ rfl
      simp [ofPiece] at hsome

/-- The path without what asks for nothing at its end: the path of the directory around its entries. -/
def around (p : Path) : Path := ofPieces p.isAbsolute (trimPieces p.stem.reverse)

theorem parent_child (hname : Listing.isEntryName name = true) : (p.child name).parent = some p.around := by
  have hslash := not_mem_of_isEntryName hname
  have hpiece := ofPiece_name hname
  have hne : name.toList ≠ [] := by
    intro hnil
    simp [hnil, ofPiece] at hpiece
  have htrim : trimPieces (name.toList :: p.stem.reverse) = name.toList :: p.stem.reverse := by
    cases p.stem.reverse with
    | nil => simp [trimPieces, hne]
    | cons q qs => simp [trimPieces, hpiece]
  rw [parent, pieces_child hslash, List.reverse_append, List.reverse_singleton, List.singleton_append,
    htrim, isAbsolute_child hslash]
  rfl

/-- Where something is left of a path, it is the text in front. -/
structure AroundSpec (p : Path) (kept dropped : List (List Char)) : Prop where
  stem : p.stem = kept ++ dropped
  dots : ∀ q ∈ dropped, q = [] ∨ q = ['.']
  pieces : Text.pieces '/' p.around.text.toList = kept
  last : kept.getLast? ≠ some []
  front : p.around.text.toList <+: p.text.toList

theorem around_spec (h : trimPieces p.stem.reverse ≠ []) : ∃ kept dropped, p.AroundSpec kept dropped := by
  obtain ⟨dropped, hsplit, hdots, hhead⟩ := trimPieces_spec p.stem.reverse
  have haround : p.around = ofPieces p.isAbsolute (trimPieces p.stem.reverse) := rfl
  generalize trimPieces p.stem.reverse = kept at h hsplit hhead haround
  have hpieces := pieces_eq_stem (p := p)
  have hstem : p.stem = kept.reverse ++ dropped.reverse := by
    rw [← List.reverse_append, ← hsplit, List.reverse_reverse]
  have htext : p.around.text.toList = ['/'].intercalate kept.reverse := by
    obtain ⟨q, qs, rfl⟩ := List.exists_cons_of_ne_nil h
    rw [haround]
    exact String.toList_ofList
  have hslash : ∀ piece ∈ kept.reverse, '/' ∉ piece := by
    intro piece hpiece
    have hmem : piece ∈ Text.pieces '/' p.text.toList := by
      rw [hpieces, hstem]
      simp [List.mem_reverse.mp hpiece]
    exact Text.not_mem_of_mem_pieces hmem
  refine ⟨kept.reverse, dropped.reverse, hstem, by simpa using hdots, ?_, ?_, ?_⟩
  · rw [htext, Text.pieces_intercalate (by simpa using h) hslash]
  · intro hlast
    rw [List.getLast?_reverse] at hlast
    exact hhead [] hlast rfl
  · have hfront := Text.intercalate_pieces '/' p.text.toList
    rw [hpieces, hstem, List.append_assoc] at hfront
    rw [htext, ← hfront]
    exact Text.intercalate_append _ _

theorem AroundSpec.text_ne {kept dropped : List (List Char)} (h : p.AroundSpec kept dropped) :
    p.around.text ≠ "" := by
  intro htext
  have hlast := h.last
  rw [← h.pieces, htext] at hlast
  simp [Text.pieces] at hlast

theorem AroundSpec.isAbsolute {kept dropped : List (List Char)} (h : p.AroundSpec kept dropped) :
    p.around.isAbsolute = p.isAbsolute := by
  obtain ⟨rest, hrest⟩ := h.front
  unfold Path.isAbsolute
  cases htext : p.around.text.toList with
  | nil => exact absurd (String.toList_eq_nil_iff.mp htext) h.text_ne
  | cons c cs => rw [← hrest, htext, List.cons_append, List.head?_cons, List.head?_cons]

/-- The directory around an entry is not the entry: its text is shorter. -/
theorem around_ne_child (hname : Listing.isEntryName name = true) : p.around ≠ p.child name := by
  have hslash := not_mem_of_isEntryName hname
  have hpiece := ofPiece_name hname
  have hsome : 0 < name.toList.length := by
    refine List.length_pos_iff.mpr fun hnil => ?_
    simp [ofPiece, hnil] at hpiece
  intro heq
  have hlonger : p.text.toList.length < (p.child name).text.toList.length := by
    rw [text_child hslash]
    split
    · simpa using hsome
    · simp
  have hshorter : p.around.text.toList.length ≤ p.text.toList.length := by
    by_cases htrim : trimPieces p.stem.reverse = []
    · rw [around, htrim, ofPieces]
      cases habsolute : p.isAbsolute with
      | false => simp
      | true =>
          unfold isAbsolute at habsolute
          cases htext : p.text.toList with
          | nil => simp [htext] at habsolute
          | cons c cs => simp
    · obtain ⟨kept, dropped, hspec⟩ := around_spec htrim
      exact hspec.front.length_le
  rw [heq] at hshorter
  omega

end Path

namespace Disk

variable {d : Disk} {p : Path} {base : Location} {name : String}

/-- What is in front of a path that can lead somewhere can lead somewhere. -/
theorem malformed?_of_front {q : Path} (h : malformed? p = none) (hne : q.text ≠ "")
    (hfront : q.text.toList <+: p.text.toList) : malformed? q = none := by
  obtain ⟨rest, hrest⟩ := hfront
  have htext : p.text = q.text ++ String.ofList rest := by
    rw [← String.toList_inj, String.toList_append, String.toList_ofList, hrest]
  unfold malformed? at h ⊢
  split at h
  · cases h
  next hzero =>
    split at h
    · cases h
    · split at h
      · cases h
      next hlong =>
        rw [htext, String.utf8ByteSize_append] at hlong
        have hzero' : q.text.toList.contains '\x00' = false := by
          rw [htext] at hzero
          simp_all
        simp only [hzero', String.isEmpty_iff, hne]
        simp
        omega

/-- The steps over lone dots and empty pieces stay where they are. -/
theorem filterMap_dots {dropped : List (List Char)} (h : ∀ q ∈ dropped, q = [] ∨ q = ['.']) :
    ∃ n, dropped.filterMap Step.ofPiece? = List.replicate n .here := by
  induction dropped with
  | nil => exact ⟨0, rfl⟩
  | cons q rest ih =>
      obtain ⟨n, hn⟩ := ih fun q hq => h q (List.mem_cons_of_mem _ hq)
      rcases h q List.mem_cons_self with rfl | rfl
      · exact ⟨n, by simpa [Step.ofPiece?] using hn⟩
      · exact ⟨n + 1, by simp [Step.ofPiece?, hn, List.replicate_succ]⟩

theorem follow_around {kept dropped : List (List Char)} (hspec : p.AroundSpec kept dropped)
    (h : d.Opens p base) : d.follow linkLimit d.workDir (stepsOf p.around) = .ok base := by
  have hsteps : stepsOf p.around = stepsOver p kept := by
    rw [stepsOf, hspec.pieces, if_neg hspec.last, List.append_nil, stepsOver, stepsOver,
      hspec.isAbsolute]
  obtain ⟨n, hdots⟩ := filterMap_dots hspec.dots
  have hfollow := h.follow
  rw [hspec.stem, stepsOver_append, hdots] at hfollow
  obtain ⟨loc, hloc⟩ := follow_of_append_ok hfollow
  obtain ⟨hops, hmore⟩ := follow_append_of_ok hloc
  rw [hmore] at hfollow
  rw [hsteps, hloc, eq_of_follow_here hfollow]

theorem leadsToDir_around {kept dropped : List (List Char)} (hspec : p.AroundSpec kept dropped)
    (h : d.Opens p base) : d.leadsToDir p.around = true := by
  have hfollow := follow_around hspec h
  rcases h with ⟨htext, -⟩ | ⟨hlocate, hdir⟩
  · have hnil := hspec.front
    rw [htext] at hnil
    exact absurd (String.toList_eq_nil_iff.mp (List.prefix_nil.mp hnil)) hspec.text_ne
  · have hformed := malformed?_of_front (locate_eq_ok.mp hlocate).1 hspec.text_ne hspec.front
    exact leadsToDir_iff.mpr ⟨base, locate_eq_ok.mpr ⟨hformed, hfollow⟩, hdir⟩

/-- Making the directory around an entry of an open directory changes nothing. -/
theorem makeDirs_parent (h : d.Opens p base) (hname : Listing.isEntryName name = true) :
    d.makeDirs ((p.child name).parent.getD ⟨"."⟩) = (.ok (), d) := by
  rw [Path.parent_child hname, Option.getD_some]
  by_cases htrim : Path.trimPieces p.stem.reverse = []
  · rw [Path.around, htrim, Path.ofPieces]
    cases p.isAbsolute with
    | false => rfl
    | true =>
        refine makeDirs_of_leadsToDir (leadsToDir_iff.mpr ⟨[], locate_eq_ok.mpr ⟨by decide, ?_⟩, rfl⟩)
        have hsteps : stepsOf ⟨"/"⟩ = [.root, .directory] := by decide
        have hroot : d.isDir [] = true := rfl
        rw [if_pos rfl, hsteps, follow_root, follow_directory, if_pos hroot, follow_nil]
  · obtain ⟨kept, dropped, hspec⟩ := Path.around_spec htrim
    exact makeDirs_of_leadsToDir (leadsToDir_around hspec h)

/-! ## What lies under a path -/

variable {loc : Location} {names : List String}

/-- A location lies under a path: names lead to it from where the path leads. -/
def Under (d : Disk) (p : Path) (names : List String) (loc : Location) : Prop :=
  ∃ place, d.locate p = .ok place ∧ loc = place ++ names

/-- No link stands for a name in a directory. -/
def Unlinked (d : Disk) (dir : Path) (name : String) : Prop :=
  ∀ base target, d.Opens dir base → d.kind? (base ++ [name]) ≠ some (.link target)

theorem unlinked_of_isDir {listable : Bool} (h : d.locate p = .ok base)
    (hdir : d.kind? (base ++ [name]) = some (.dir listable)) : d.Unlinked p name := by
  intro base' target hopens hlink
  obtain rfl := hopens.eq_of_locate h
  cases hdir.symm.trans hlink

/-- A directory that the path of an entry leads through is open. -/
theorem opens_of_follow (hfollow : d.follow linkLimit d.workDir (stepsOver p p.stem) = .ok base)
    (hdir : d.isDir base = true) (hformed : malformed? (p.child name) = none)
    (hname : Listing.isEntryName name = true) : d.Opens p base := by
  by_cases htext : p.text = ""
  · have hhere : stepsOver p p.stem = [] := by simp [stepsOver, Path.stem, htext, Text.pieces, Path.isAbsolute]
    rw [hhere, follow_nil] at hfollow
    exact .inl ⟨htext, (Except.ok.inj hfollow).symm⟩
  · have hfront : p.text.toList <+: (p.child name).text.toList := by
      have hrelative := Path.not_isAbsolute (Path.not_mem_of_isEntryName hname)
      simp only [Path.child, Path.join, hrelative, Bool.false_eq_true, if_false]
      split <;> simp
    obtain ⟨tail, htail, hsteps⟩ := stepsOf_eq (p := p)
    obtain ⟨hops, hmore⟩ := follow_append_of_ok hfollow
    refine .inr ⟨locate_eq_ok.mpr ⟨malformed?_of_front hformed htext hfront, ?_⟩, hdir⟩
    rw [hsteps, hmore]
    rcases htail with rfl | rfl
    · exact follow_nil
    · rw [follow_directory, if_pos hdir, follow_nil]

/-- What lies under the path of an entry lies under the entry itself, unless that is a link. -/
theorem under_child (h : d.Under (p.child name) names loc) (hname : Listing.isEntryName name = true)
    (hunlinked : d.Unlinked p name) :
    ∃ base, d.Opens p base ∧ d.kind? base = some (.dir true) ∧ loc = base ++ name :: names := by
  obtain ⟨place, hlocate, rfl⟩ := h
  obtain ⟨hformed, hfollow⟩ := locate_eq_ok.mp hlocate
  rw [stepsOf_child hname] at hfollow
  obtain ⟨base, hbase⟩ := follow_of_append_ok hfollow
  obtain ⟨hops, hmore⟩ := follow_append_of_ok hbase
  rw [hmore] at hfollow
  obtain ⟨hdir, -, kind, hkind, hstep⟩ := follow_name_eq_ok.mp hfollow
  have hopens := opens_of_follow hbase (isDir_iff.mpr ⟨true, hdir⟩) hformed hname
  refine ⟨base, hopens, hdir, ?_⟩
  have hplace : place = base ++ [name] := by
    cases kind with
    | link target => exact absurd hkind (hunlinked base target hopens)
    | file => simpa [step] using hstep.symm
    | dir listable => simpa [step] using hstep.symm
  rw [hplace, List.append_assoc, List.singleton_append]

end Disk

end CodeSweep
