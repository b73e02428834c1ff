import CodeSweep.Codemod.Run
import CodeSweep.Git.Prepare
import CodeSweep.Proofs.Text.Ending
import Mathlib.Data.List.Nodup

/-! # Where repositories live

A repository is told by three things that are derived apart from each other: its name, read off its
address; the first component of a path below the working directory; and its own path. They agree. A
name has no slash in it, so a repository's path is that of one entry of the working directory
(`same_child_iff`), and a file is seen to be in a repository exactly when it lies in the directory of
that name (`head_components_below`). Among the repositories of a run no two have the same name, and so
no two the same address or path. -/

namespace CodeSweep

/-! ## Children -/

/-- The last piece is empty where there is nothing, or nothing after a separator. -/
theorem Text.getLast?_of_pieces {sep : Char} {l : List Char}
    (h : (Text.pieces sep l).getLast? = some []) : l = [] ∨ l.getLast? = some sep := by
  induction l with
  | nil => exact .inl rfl
  | cons c cs ih =>
      right
      obtain ⟨p, ps, hp⟩ := List.exists_cons_of_ne_nil (Text.pieces_ne_nil sep cs)
      rw [Text.pieces, hp] at h
      have hcs : cs = [] ∨ cs.getLast? = some sep → (c :: cs).getLast? = some sep ∨ cs = [] := by
        rintro (rfl | hlast)
        · exact .inr rfl
        · exact .inl (by rw [List.getLast?_cons, hlast]; rfl)
      split at h
      next hc =>
        rw [List.getLast?_cons_cons, ← hp] at h
        rcases hcs (ih h) with hlast | rfl
        · exact hlast
        · simp [hc]
      next hc =>
        cases ps with
        | nil => simp at h
        | cons q qs =>
            rw [List.getLast?_cons_cons] at h
            rcases hcs (ih (by rw [hp, List.getLast?_cons_cons, h])) with hlast | rfl
            · exact hlast
            · simp [Text.pieces] at hp

namespace Path

variable {p q : Path} {name other : String}

/-- The pieces of a path between slashes, without an empty one at the end. -/
def stem (p : Path) : List (List Char) :=
  let pieces := Text.pieces '/' p.text.toList
  if pieces.getLast? = some [] then pieces.dropLast else pieces

theorem pieces_eq_stem : Text.pieces '/' p.text.toList =
    p.stem ++ if (Text.pieces '/' p.text.toList).getLast? = some [] then [[]] else [] := by
  unfold stem
  dsimp only
  split
  next h =>
    obtain ⟨before, hbefore⟩ := List.getLast?_eq_some_iff.mp h
    rw [hbefore, List.dropLast_concat]
  next => rw [List.append_nil]

theorem not_isAbsolute (hname : '/' ∉ name.toList) : isAbsolute ⟨name⟩ = false := by
  cases h : name.toList with
  | nil => simp [isAbsolute, h]
  | cons c cs => simp_all [isAbsolute, Ne.symm]

/-- A path is written after the directory it is seen from, with one slash between them unless there is
none to part or a slash already. -/
theorem text_join (hq : q.isAbsolute = false) : (p.join q).text.toList =
    if p.text.isEmpty || p.text.toList.getLast? == some '/' then p.text.toList ++ q.text.toList
    else p.text.toList ++ '/' :: q.text.toList := by
  rw [join, hq]
  simp only [Bool.false_eq_true, if_false]
  split <;> simp

theorem text_child (hname : '/' ∉ name.toList) : (p.child name).text.toList =
    if p.text.isEmpty || p.text.toList.getLast? == some '/' then p.text.toList ++ name.toList
    else p.text.toList ++ '/' :: name.toList :=
  text_join (not_isAbsolute hname)

theorem pieces_join (hq : q.isAbsolute = false) :
    Text.pieces '/' (p.join q).text.toList = p.stem ++ Text.pieces '/' q.text.toList := by
  rw [text_join hq]
  split
  next h =>
    simp only [Bool.or_eq_true, String.isEmpty_iff, beq_iff_eq] at h
    rcases h with h | h
    · simp [stem, h, Text.pieces]
    -- the slash at the end parts what is written after it from what is before it
    · obtain ⟨before, hbefore⟩ := List.getLast?_eq_some_iff.mp h
      have hpieces : Text.pieces '/' p.text.toList = Text.pieces '/' before ++ [[]] := by
        rw [hbefore, Text.pieces_append, Text.pieces]
      rw [hbefore, List.append_assoc, List.singleton_append, Text.pieces_append]
      simp [stem, hpieces]
  next h =>
    have hlast : (Text.pieces '/' p.text.toList).getLast? ≠ some [] := by
      intro hlast
      rcases Text.getLast?_of_pieces hlast with hempty | hslash
      · simp [String.isEmpty_iff, String.toList_eq_nil_iff.mp hempty] at h
      · simp [hslash] at h
    rw [Text.pieces_append]
    simp [stem, hlast]

theorem pieces_child (hname : '/' ∉ name.toList) :
    Text.pieces '/' (p.child name).text.toList = p.stem ++ [name.toList] := by
  rw [child, pieces_join (not_isAbsolute hname), Text.pieces_of_not_mem hname]

theorem child_inj (hname : '/' ∉ name.toList) (hother : '/' ∉ other.toList)
    (h : p.child name = p.child other) : name = other := by
  have htext : (p.child name).text.toList = (p.child other).text.toList := by rw [h]
  rw [text_child hname, text_child hother] at htext
  split at htext
  · exact String.toList_inj.mp (List.append_cancel_left htext)
  · exact String.toList_inj.mp (List.cons.inj (List.append_cancel_left htext)).2

theorem isAbsolute_join (hq : q.isAbsolute = false) : (p.join q).isAbsolute = p.isAbsolute := by
  have hhead := hq
  unfold isAbsolute at hhead ⊢
  rw [text_join hq]
  cases hp : p.text.toList with
  | nil => simp_all [String.isEmpty_iff]
  | cons c cs => split <;> rfl

theorem isAbsolute_child (hname : '/' ∉ name.toList) :
    (p.child name).isAbsolute = p.isAbsolute :=
  isAbsolute_join (not_isAbsolute hname)

theorem text_of_stem_nil (h : p.stem = []) : p.text = "" := by
  have hpieces := pieces_eq_stem (p := p)
  rw [h, List.nil_append] at hpieces
  cases hp : p.text.toList with
  | nil => exact String.toList_eq_nil_iff.mp hp
  | cons c cs =>
      split at hpieces
      next hlast =>
        -- a path of which only the last piece is empty is empty itself
        rw [hp, Text.pieces] at hpieces
        split at hpieces
        · exact absurd (List.cons.inj hpieces).2 (Text.pieces_ne_nil _ _)
        · split at hpieces <;> simp at hpieces
      next => exact absurd hpieces (Text.pieces_ne_nil _ _)

theorem stem_of_text_ne (h : p.text ≠ "") : ∃ first more, p.stem = first :: more :=
  List.exists_cons_of_ne_nil fun hstem => h (text_of_stem_nil hstem)

/-- The components of what is seen from a directory come after those of the directory. A lone dot in
front is one only where nothing is before it. -/
theorem components_join (hq : q.isAbsolute = false)
    (hdot : (Text.pieces '/' q.text.toList).head? = some ['.'] → p.text ≠ "") :
    (p.join q).components = p.components ++ (Text.pieces '/' q.text.toList).filterMap ofPiece := by
  have hpieces := pieces_eq_stem (p := p)
  unfold components
  rw [pieces_join hq, isAbsolute_join hq, hpieces]
  by_cases htext : p.text = ""
  · obtain ⟨first, more, hfirst⟩ := List.exists_cons_of_ne_nil (Text.pieces_ne_nil '/' q.text.toList)
    have hne : first ≠ ['.'] := fun h => hdot (by simp [hfirst, h]) htext
    have hempty : ofPiece [] = none := rfl
    cases hpiece : ofPiece first <;>
      simp [stem, htext, Text.pieces, isAbsolute, hempty, hfirst, hne, hpiece]
  · obtain ⟨first, more, hstem⟩ := stem_of_text_ne htext
    have htail : (more ++ if (Text.pieces '/' p.text.toList).getLast? = some [] then [[]]
        else []).filterMap ofPiece = more.filterMap ofPiece := by
      split <;> simp [ofPiece]
    simp only [hstem, List.cons_append, htail, List.filterMap_append, List.append_assoc]

theorem components_child (hname : '/' ∉ name.toList) (hdot : name = "." → p.text ≠ "") :
    (p.child name).components = p.components ++ (ofPiece name.toList).toList := by
  have hpieces : Text.pieces '/' name.toList = [name.toList] := Text.pieces_of_not_mem hname
  rw [child, components_join (not_isAbsolute hname), hpieces]
  · cases hpiece : ofPiece name.toList <;> simp [hpiece]
  · intro hhead
    rw [hpieces, List.head?_cons, Option.some.injEq] at hhead
    exact hdot (String.toList_inj.mp hhead)

theorem ofPiece_name (hname : Listing.isEntryName name = true) :
    ofPiece name.toList = some (.name name) := by
  obtain ⟨hempty, hhere, hup, -⟩ := Listing.isEntryName_iff.mp hname
  have hspelled : ∀ cs, name ≠ String.ofList cs → name.toList ≠ cs := by
    rintro cs hne rfl
    exact hne String.ofList_toList.symm
  unfold ofPiece
  rw [if_neg (not_or.mpr ⟨hspelled [] hempty, hspelled ['.'] hhere⟩), if_neg (hspelled ['.', '.'] hup),
    String.ofList_toList]

theorem not_mem_of_isEntryName (hname : Listing.isEntryName name = true) : '/' ∉ name.toList :=
  (Listing.isEntryName_iff.mp hname).2.2.2

theorem components_child_of_entry (hname : Listing.isEntryName name = true) :
    (p.child name).components = p.components ++ [.name name] := by
  have hdot : name = "." → p.text ≠ "" := by
    rintro rfl
    cases hname
  rw [components_child (not_mem_of_isEntryName hname) hdot, ofPiece_name hname]
  rfl

/-- An entry of a directory has the path of a name in it only if it has that name. -/
theorem same_child_iff (hname : Listing.isEntryName name = true) (hother : '/' ∉ other.toList) :
    (p.child name).same (p.child other) = true ↔ name = other := by
  refine ⟨fun h => ?_, fun h => by simp [h, same]⟩
  rw [same, beq_iff_eq, components_child_of_entry hname] at h
  by_cases hdot : other = "." ∧ p.text = ""
  · obtain ⟨rfl, htext⟩ := hdot
    simp [components, text_child, htext, isAbsolute, Text.pieces, String.isEmpty_iff, ofPiece] at h
  · rw [components_child hother fun heq htext => hdot ⟨heq, htext⟩, List.append_cancel_left_eq] at h
    unfold ofPiece at h
    split at h
    · simp at h
    · split at h
      · simp at h
      · simpa using h

end Path

/-! ## Files below a directory -/

namespace Codemod

variable {names more : List String} {name : String}

theorem rootOf_cons (root : Path) : rootOf root (name :: more) = root.child name := rfl

theorem toList_intercalate_cons (name : String) (more : List String) : ∃ rest : List Char, ("/".intercalate (name :: more)).toList =
    name.toList ++ rest ∧ (rest = [] ∨ ∃ later, rest = '/' :: later) := by
  cases more with
  | nil => exact ⟨[], by simp, .inl rfl⟩
  | cons next more =>
      refine ⟨'/' :: ("/".intercalate (next :: more)).toList, ?_, .inr ⟨_, rfl⟩⟩
      rw [String.intercalate_cons_cons, String.toList_append, String.toList_append, List.append_assoc]
      rfl

/-- Names of entries make a relative path. -/
theorem isAbsolute_intercalate (hname : Listing.isEntryName name = true) :
    Path.isAbsolute ⟨"/".intercalate (name :: more)⟩ = false := by
  have hslash := Path.not_mem_of_isEntryName hname
  have hpiece := Path.ofPiece_name hname
  obtain ⟨rest, htext, -⟩ := toList_intercalate_cons name more
  cases hcs : name.toList with
  | nil => simp [hcs, Path.ofPiece] at hpiece
  | cons c cs => simp_all [Path.isAbsolute, Ne.symm]

/-- The first component of a path below a directory names the entry that the file lies in. -/
theorem head_components_below (hname : Listing.isEntryName name = true) :
    (below ⟨""⟩ (name :: more)).components.head? = some (.name name) := by
  have hslash := Path.not_mem_of_isEntryName hname
  have hpiece := Path.ofPiece_name hname
  have hrelative : Path.isAbsolute ⟨"/".intercalate (name :: more)⟩ = false :=
    isAbsolute_intercalate hname
  obtain ⟨rest, htext, hrest⟩ := toList_intercalate_cons name more
  have hpieces : ∃ later, Text.pieces '/' (name.toList ++ rest) = name.toList :: later := by
    rcases hrest with rfl | ⟨later, rfl⟩
    · exact ⟨[], by rw [List.append_nil, Text.pieces_of_not_mem hslash]⟩
    · exact ⟨_, Text.pieces_append_sep hslash later⟩
  obtain ⟨later, hpieces⟩ := hpieces
  have hbelow : below ⟨""⟩ (name :: more) = ⟨"/".intercalate (name :: more)⟩ := by
    simp [below, Path.join, hrelative]
  have hdot : name.toList ≠ ['.'] := by
    intro hdot
    simp [hdot, Path.ofPiece] at hpiece
  rw [hbelow, Path.components, hrelative]
  simp [htext, hpieces, hdot, hpiece]

end Codemod

/-! ## Repositories -/

namespace Repository

/-- A repository's name is not empty and has no slash in it. -/
theorem nameOf?_spec {address name : String} (h : nameOf? address = some name) :
    name ≠ "" ∧ '/' ∉ name.toList := by
  unfold nameOf? at h
  dsimp only at h
  obtain ⟨last, hlast⟩ := Option.ne_none_iff_exists'.mp fun hnone =>
    Text.pieces_ne_nil '/' (Text.dropTrailing (· == '/') address.toList) (List.getLast?_eq_none_iff.mp hnone)
  have hslash : '/' ∉ last := Text.not_mem_of_mem_pieces (List.mem_of_getLast? hlast)
  rw [hlast, Option.getD_some] at h
  split at h
  next => cases h
  next hne =>
    cases h
    refine ⟨by simpa [String.ofList_eq_empty_iff] using hne, ?_⟩
    rw [String.toList_ofList]
    cases hsplit : Text.splitLast? '.' last with
    | none => simpa using hslash
    | some split =>
        obtain ⟨front, ext⟩ := split
        obtain ⟨rfl, -⟩ := Text.splitLast?_eq_some_iff.mp hsplit
        exact fun hmem => hslash (List.mem_append_left _ hmem)

/-- Those that are left have names that were not taken, each once. -/
theorem nodup_distinct (taken : List String) (rs : List Repository) :
    ((distinct taken rs).map (·.name)).Nodup ∧ ∀ r ∈ distinct taken rs, r.name ∉ taken ∧ r ∈ rs := by
  induction rs generalizing taken with
  | nil => exact ⟨List.nodup_nil, nofun⟩
  | cons r rest ih =>
      rw [distinct]
      split
      next htaken =>
        obtain ⟨hnodup, hmem⟩ := ih taken
        exact ⟨hnodup, fun r' hr' => ⟨(hmem r' hr').1, List.mem_cons_of_mem r (hmem r' hr').2⟩⟩
      next htaken =>
        obtain ⟨hnodup, hmem⟩ := ih (r.name :: taken)
        refine ⟨?_, ?_⟩
        · rw [List.map_cons, List.nodup_cons]
          refine ⟨fun hname => ?_, hnodup⟩
          obtain ⟨r', hr', heq⟩ := List.mem_map.mp hname
          exact (hmem r' hr').1 (by simp [heq])
        · intro r' hr'
          rcases List.mem_cons.mp hr' with rfl | hr'
          · exact ⟨by simpa using htaken, List.mem_cons_self⟩
          · obtain ⟨hnot, hin⟩ := hmem r' hr'
            exact ⟨fun h => hnot (List.mem_cons_of_mem _ h), List.mem_cons_of_mem _ hin⟩

/-- The first one of a name is left, if the name was not taken. -/
theorem mem_distinct_of_first {taken : List String} {before after : List Repository} {r : Repository}
    (htaken : r.name ∉ taken) (hfirst : ∀ r' ∈ before, r'.name ≠ r.name) :
    r ∈ distinct taken (before ++ r :: after) := by
  induction before generalizing taken with
  | nil =>
      rw [List.nil_append, distinct, if_neg (by simpa using htaken)]
      exact List.mem_cons_self
  | cons r' before ih =>
      have hne := hfirst r' List.mem_cons_self
      have hbefore : ∀ r'' ∈ before, r''.name ≠ r.name :=
        fun r'' hr'' => hfirst r'' (List.mem_cons_of_mem r' hr'')
      rw [List.cons_append, distinct]
      split
      next => exact ih htaken hbefore
      next => exact List.mem_cons_of_mem r' (ih (by simp [htaken, hne.symm]) hbefore)

variable {specs : List RepositorySpec} {location : Path}

/-- Every repository of a run has the name that its address gives and lives in the directory of that
name. -/
theorem ofSpecs_spec {r : Repository} (h : r ∈ ofSpecs specs location) :
    nameOf? r.address = some r.name ∧ r.path = location.child r.name := by
  obtain ⟨spec, -, hspec⟩ := List.mem_filterMap.mp ((nodup_distinct [] _).2 r h).2
  obtain ⟨name, hname, rfl⟩ := Option.map_eq_some_iff.mp hspec
  exact ⟨hname, rfl⟩

/-- The first entry of a name gives a repository of the run. -/
theorem mem_ofSpecs_of_first {before after : List RepositorySpec} {spec : RepositorySpec}
    {r : Repository} (hspec : ofAddress? spec.address location spec.tags = some r)
    (hfirst : ∀ earlier ∈ before, nameOf? earlier.address ≠ some r.name) :
    r ∈ ofSpecs (before ++ spec :: after) location := by
  simp only [ofSpecs, List.filterMap_append, List.filterMap_cons, hspec]
  refine mem_distinct_of_first List.not_mem_nil fun r' hr' hsame => ?_
  obtain ⟨earlier, hearlier, hmade⟩ := List.mem_filterMap.mp hr'
  obtain ⟨name, hname, rfl⟩ := Option.map_eq_some_iff.mp hmade
  rw [← hsame] at hfirst
  exact hfirst earlier hearlier hname

theorem name_spec {r : Repository} (h : r ∈ ofSpecs specs location) :
    r.name ≠ "" ∧ '/' ∉ r.name.toList :=
  nameOf?_spec (ofSpecs_spec h).1

/-- The name of a repository is an entry's, unless it is one of the two that every directory has. -/
theorem isEntryName_of_name {r : Repository} (h : r ∈ ofSpecs specs location)
    (hdots : r.name ≠ "." ∧ r.name ≠ "..") : Listing.isEntryName r.name = true :=
  Listing.isEntryName_iff.mpr ⟨(name_spec h).1, hdots.1, hdots.2, (name_spec h).2⟩

theorem nodup_names (specs : List RepositorySpec) (location : Path) :
    ((ofSpecs specs location).map (·.name)).Nodup :=
  (nodup_distinct [] _).1

section Told

variable {r r' : Repository} (h : r ∈ ofSpecs specs location) (h' : r' ∈ ofSpecs specs location)

include h h'

/-- Two repositories of a run with one name are the same. -/
theorem eq_of_name (hname : r.name = r'.name) : r = r' :=
  List.inj_on_of_nodup_map (nodup_names specs location) h h' hname

theorem eq_of_address (haddress : r.address = r'.address) : r = r' := by
  have hname := (ofSpecs_spec h).1
  rw [haddress, (ofSpecs_spec h').1] at hname
  exact eq_of_name h h' (Option.some.inj hname).symm

theorem eq_of_path (hpath : r.path = r'.path) : r = r' := by
  rw [(ofSpecs_spec h).2, (ofSpecs_spec h').2] at hpath
  exact eq_of_name h h' (Path.child_inj (name_spec h).2 (name_spec h').2 hpath)

end Told

theorem nodup_addresses (specs : List RepositorySpec) (location : Path) :
    ((ofSpecs specs location).map (·.address)).Nodup :=
  (nodup_names specs location).of_map.map_on fun _ h _ h' => eq_of_address h h'

end Repository

end CodeSweep
