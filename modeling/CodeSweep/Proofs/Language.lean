import CodeSweep.Codemod.Run
import CodeSweep.Codemod.TextStep
import CodeSweep.Proofs.Ordered
import CodeSweep.Proofs.Text.Ending

/-! # Which files a language is for

A language claims files by what follows the last dot of their name, in either case of letters. Files are
selected by that text as well, but as it is written: it has to be one of the extensions that a declared
language lists.

    web/src/app.ts ──claimed by──▶ typescript    web/src/app.ts ──▶ selected
    web/src/App.TS ──claimed by──▶ typescript    web/src/App.TS ──▶ left out

The extensions that languages list are a dot and small letters (`spelled_of_listed`). So a language lists
an extension exactly when it claims it and no letter of it is a capital (`lists_iff`), and a file that a
declared language claims is selected exactly when its extension is written in small letters
(`isAmong_iff_claimed`). -/

namespace CodeSweep

namespace Text

variable {a b : String}

theorem sameIgnoringCase_iff :
    sameIgnoringCase a b = true ↔ a.toList.map Char.toLower = b.toList.map Char.toLower :=
  beq_iff_eq

/-- Characters without a capital letter among them. -/
def Small (cs : List Char) : Prop := ∀ c ∈ cs, c.toLower = c

instance (cs : List Char) : Decidable (Small cs) :=
  decidable_of_iff (cs.all (fun c => c.toLower == c) = true) (by simp [Small])

theorem Small.map_toLower {cs : List Char} (h : Small cs) : cs.map Char.toLower = cs :=
  (List.map_congr_left h).trans (List.map_id cs)

end Text

namespace Path

variable {path : Path} {ext : String}

/-- An extension is what follows the last dot. -/
theorem not_mem_extension (h : path.extension = some ext) : '.' ∉ ext.toList := by
  obtain ⟨name, -, hname⟩ := Option.bind_eq_some_iff.mp h
  split at hname
  next c before after hsplit =>
    cases hname
    rw [String.toList_ofList]
    exact (Text.splitLast?_eq_some_iff.mp hsplit).2
  next => cases hname

end Path

namespace Language

open Text (Small)

variable {l : Language} {ext name : String} {names : List String}

/-! ## Extensions -/

/-- A listed extension is a dot, and after it small letters and no dot. -/
structure Spelled (listed : String) : Prop where
  dotted : listed.toList.head? = some '.'
  unbroken : '.' ∉ listed.toList.tail
  small : Small listed.toList.tail

instance (listed : String) : Decidable (Spelled listed) :=
  decidable_of_iff
    (listed.toList.head? = some '.' ∧ '.' ∉ listed.toList.tail ∧ Small listed.toList.tail)
    ⟨fun ⟨hdot, hunbroken, hsmall⟩ => ⟨hdot, hunbroken, hsmall⟩,
      fun h => ⟨h.dotted, h.unbroken, h.small⟩⟩

theorem spelled_of_listed : ∀ l ∈ all, ∀ listed ∈ l.extensions, Spelled listed := by decide

theorem ne_nil_of_mem : ∀ l ∈ all, l.extensions ≠ [] := by decide

theorem mem_all_of_lookup? (h : lookup? name = some l) : l ∈ all := List.mem_of_find?_eq_some h

theorem bare_of_not_mem (h : '.' ∉ ext.toList) : bare ext = ext := by
  have hkept : ext.toList.dropWhile (· == '.') = ext.toList := by
    rw [List.dropWhile_eq_self_iff]
    intro hlength hdot
    exact h (by simpa using beq_iff_eq.mp hdot ▸ List.getElem_mem hlength)
  rw [bare, hkept, String.ofList_toList]

/-- A listed extension without its dot. -/
theorem toList_bare (h : Spelled ext) : '.' :: (bare ext).toList = ext.toList := by
  obtain ⟨rest, hrest⟩ := List.head?_eq_some_iff.mp h.dotted
  have hunbroken := h.unbroken
  rw [hrest, List.tail_cons] at hunbroken
  have hkept : bare (String.ofList rest) = String.ofList rest :=
    bare_of_not_mem (by rwa [String.toList_ofList])
  have hbare : bare ext = bare (String.ofList rest) := by
    rw [bare, bare, hrest, String.toList_ofList, List.dropWhile_cons_of_pos (by rfl)]
  rw [hbare, hkept, String.toList_ofList, hrest]

/-- **A language lists the extensions that it claims, as far as they are written in small letters.** -/
theorem lists_iff (hl : l ∈ all) (hext : '.' ∉ ext.toList) :
    "." ++ ext ∈ l.extensions ↔ l.claims ext = true ∧ Small ext.toList := by
  have hdotted : ("." ++ ext).toList = '.' :: ext.toList := String.toList_append
  rw [claims, List.any_eq_true, bare_of_not_mem hext]
  constructor
  · intro hlisted
    have hspelled := spelled_of_listed l hl _ hlisted
    have hbare : bare ("." ++ ext) = ext := by
      have hcons := toList_bare hspelled
      rw [hdotted, List.cons.injEq] at hcons
      exact String.toList_inj.mp hcons.2
    refine ⟨⟨"." ++ ext, hlisted, ?_⟩, ?_⟩
    · rw [hbare]
      exact Text.sameIgnoringCase_iff.mpr rfl
    · have hsmall := hspelled.small
      rwa [hdotted, List.tail_cons] at hsmall
  · rintro ⟨⟨listed, hlisted, hsame⟩, hsmall⟩
    have hspelled := spelled_of_listed l hl _ hlisted
    have hcons := toList_bare hspelled
    -- neither of the two has a capital, so there is no case to ignore
    have hlistedSmall : Small (bare listed).toList := by
      have htail := hspelled.small
      rwa [← hcons, List.tail_cons] at htail
    have heq : (bare listed).toList = ext.toList := by
      have hlower := Text.sameIgnoringCase_iff.mp hsame
      rwa [hlistedSmall.map_toLower, hsmall.map_toLower] at hlower
    have hfound : "." ++ ext = listed := by
      apply String.toList_inj.mp
      rw [hdotted, ← heq, hcons]
    rwa [hfound]

/-! ## Selection -/

theorem mem_flatMap_resolve {listed : String} : listed ∈ names.flatMap resolve ↔
    ∃ name ∈ names, ∃ l, lookup? name = some l ∧ listed ∈ l.extensions := by
  rw [List.mem_flatMap]
  refine exists_congr fun name => and_congr_right fun _ => ?_
  unfold resolve
  cases lookup? name <;> simp

/-- A name that some language answers to selects by extension. -/
theorem isEmpty_extensions (hknown : ∃ name ∈ names, lookup? name ≠ none) :
    (Ordered.names (names.flatMap resolve)).isEmpty = false := by
  obtain ⟨name, hname, hne⟩ := hknown
  obtain ⟨l, hl⟩ := Option.ne_none_iff_exists'.mp hne
  obtain ⟨listed, more, hlisted⟩ := List.exists_cons_of_ne_nil (ne_nil_of_mem l (mem_all_of_lookup? hl))
  have hmem : listed ∈ Ordered.names (names.flatMap resolve) :=
    Ordered.mem_ofList.mpr (mem_flatMap_resolve.mpr ⟨name, hname, l, hl, by simp [hlisted]⟩)
  rw [List.isEmpty_eq_false_iff]
  exact List.ne_nil_of_mem hmem

end Language

namespace Path

open CodeSweep.Language (lookup? resolve)

variable {path : Path} {names : List String}

/-- Where a declared name is known, files are selected whose extension a declared language lists. -/
theorem isAmong_iff_lists (hknown : ∃ name ∈ names, lookup? name ≠ none) :
    path.isAmong (Ordered.names (names.flatMap resolve)) = true ↔
      ∃ ext, path.extension = some ext ∧
        ∃ name ∈ names, ∃ l, lookup? name = some l ∧ "." ++ ext ∈ l.extensions := by
  have hmem : ∀ listed, (Ordered.names (names.flatMap resolve)).contains listed = true ↔
      ∃ name ∈ names, ∃ l, lookup? name = some l ∧ listed ∈ l.extensions := by
    intro listed
    rw [List.contains_iff_mem]
    exact Ordered.mem_ofList.trans Language.mem_flatMap_resolve
  rw [isAmong, Language.isEmpty_extensions hknown, Bool.false_or, dottedExtension]
  cases path.extension with
  | none => simp
  | some ext =>
      rw [Option.map_some, Option.any_some, hmem]
      simp

/-- **A file that a declared language claims is selected exactly when its extension has no capital
letter.** -/
theorem isAmong_iff_claimed (names : List String) (path : Path) (ext : String)
    (hknown : ∃ name ∈ names, lookup? name ≠ none) (hext : path.extension = some ext) :
    path.isAmong (Ordered.names (names.flatMap resolve)) = true ↔
      (∃ name ∈ names, ∃ l, lookup? name = some l ∧ l.claims ext = true) ∧ Text.Small ext.toList := by
  rw [isAmong_iff_lists hknown]
  have hdot := not_mem_extension hext
  constructor
  · rintro ⟨_, hsame, name, hname, l, hl, hlisted⟩
    cases hext.symm.trans hsame
    obtain ⟨hclaims, hsmall⟩ := (Language.lists_iff (Language.mem_all_of_lookup? hl) hdot).mp hlisted
    exact ⟨⟨name, hname, l, hl, hclaims⟩, hsmall⟩
  · rintro ⟨⟨name, hname, l, hl, hclaims⟩, hsmall⟩
    refine ⟨ext, hext, name, hname, l, hl, ?_⟩
    exact (Language.lists_iff (Language.mem_all_of_lookup? hl) hdot).mpr ⟨hclaims, hsmall⟩

theorem isAmong_iff_claimed_module :
    isAmong (Ordered.names (["Rust", "ts", "cobol"].flatMap resolve)) ⟨"web/src/app.mts"⟩ = true ∧
      Text.Small "mts".toList := by
  have hknown : ∃ name ∈ ["Rust", "ts", "cobol"], lookup? name ≠ none := ⟨"ts", by decide, by decide⟩
  have hclaimed : ∃ name ∈ ["Rust", "ts", "cobol"], ∃ l, lookup? name = some l ∧ l.claims "mts" = true :=
    ⟨"ts", by decide, Language.all.head!, by decide, by decide⟩
  have hsmall : Text.Small "mts".toList := by decide
  exact ⟨(isAmong_iff_claimed _ ⟨"web/src/app.mts"⟩ "mts" hknown (by decide)).mpr ⟨hclaimed, hsmall⟩, hsmall⟩

end Path

namespace Codemod

/-- A codemod that appends to the files of the named languages. -/
def appending (languages : List String) : Codemod := ofSteps "append" languages [.append "!"]

/-- A file with an extension in capitals. -/
def capitals : Disk where
  root := .dir "web" true (.file "App.TS" { content := .text "let a" } .empty) .empty
  proper := by decide

/-- How many results a run has, and how many events it tells. -/
def sizes (c : Codemod) (d : Disk) : Option (Nat × Nat) :=
  (c.run ⟨"/"⟩ {} d).toOption.map fun (report, _) => (report.results.length, report.events.length)

/-- A file that the declared language claims, and that is of this language wherever none is declared, is
passed over without a word. -/
theorem run_misses_capitals :
    ∃ l, Language.lookup? "typescript" = some l ∧ l.claims "TS" = true ∧
      Path.extension ⟨"web/App.TS"⟩ = some "TS" ∧ Language.detect? ⟨"web/App.TS"⟩ = some l ∧
      Path.isAmong (Ordered.names (["typescript"].flatMap Language.resolve)) ⟨"web/App.TS"⟩ = false ∧
      sizes (appending ["typescript"]) capitals = some (0, 0) ∧
      sizes (appending []) capitals = some (1, 3) :=
  ⟨Language.all.head!, by decide, by decide, by decide, by decide, by decide, by decide +kernel,
    by decide +kernel⟩

end Codemod

end CodeSweep
