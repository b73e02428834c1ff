import CodeSweep.Proofs.Language
import CodeSweep.Text.Bytes
import CodeSweep.Proofs.Workspace.Naming

/-! # Which language a file is parsed in

A declarative codemod meets the extension of a file twice: files are selected by what the declared
languages list, and a selected file is parsed in a language that is looked for anew,

    declared names ──resolve──▶ extensions ──▶ is the file selected?
    declared names ──lookup───▶ languages ──▶ which one is it parsed in?

and the two agree. A file that is selected by some extension is parsed in the first language that claims
its extension, in the order of the declared names (`languageFor?_of_selected`). Where no declared name is
known every file is selected, and one is refused exactly when no language is detected
(`transform_refuses_iff`). -/

namespace CodeSweep

/-! ## Extensions of joined paths -/

namespace Path

variable {root path : Path} {name ext : String}

/-- The last step of a path is that of its last pieces, but for a lone dot in front. -/
theorem getLast?_components (hpath : path.isAbsolute = false)
    (h : path.components.getLast? = some (.name name)) :
    ((Text.pieces '/' path.text.toList).filterMap ofPiece).getLast? = some (.name name) := by
  obtain ⟨first, rest, hpieces⟩ := List.exists_cons_of_ne_nil (Text.pieces_ne_nil '/' path.text.toList)
  simp only [components, hpieces, hpath, Bool.false_eq_true, if_false] at h
  have hcons : (first :: rest).filterMap ofPiece = (ofPiece first).toList ++ rest.filterMap ofPiece := by
    cases hfirst : ofPiece first <;> simp [hfirst]
  rw [hpieces, hcons]
  split at h
  next =>
    rw [List.getLast?_append] at h ⊢
    cases hlast : (rest.filterMap ofPiece).getLast? with
    | none =>
        rw [hlast] at h
        cases h
    | some last =>
        rw [hlast] at h
        exact h
  next => exact h

/-- What a path names it also names below another directory. -/
theorem fileName_join (h : path.fileName = some name) : (root.join path).fileName = some name := by
  have hlast : path.components.getLast? = some (.name name) := by
    unfold fileName at h
    split at h
    next heq =>
      cases h
      exact heq
    next => cases h
  cases habsolute : path.isAbsolute with
  | true =>
      have hjoin : root.join path = path := by rw [join, habsolute]; rfl
      rwa [hjoin]
  | false =>
      by_cases htext : root.text = ""
      · have hjoin : root.join path = path := by simp [join, habsolute, htext]
        rwa [hjoin]
      · have hcomponents := components_join (p := root) habsolute fun _ => htext
        have hpieces := getLast?_components habsolute hlast
        rw [fileName, hcomponents, List.getLast?_append, hpieces]
        rfl

theorem extension_join (h : path.extension = some ext) : (root.join path).extension = some ext := by
  obtain ⟨name, hname, hext⟩ := Option.bind_eq_some_iff.mp h
  rw [extension, fileName_join hname]
  exact hext

end Path

/-! ## Faults of stages -/

/-- What does not fail for want of a language. -/
def Supported {α : Type} (x : Except Fault α) : Prop := ∀ subject, x ≠ .error (.unsupportedLanguage subject)

namespace Source

variable {engine : Engine} {source : Source}

theorem ofText_supported (l : Language) (text : String) : Supported (ofText engine l text) := by
  intro subject h
  unfold ofText at h
  split at h <;> cases h

theorem find_supported (rule : Rule) : Supported (source.find engine rule) := by
  intro subject h
  unfold find at h
  dsimp only at h
  split at h
  · cases h
  · split at h
    · cases h
    · split at h <;> cases h

theorem edits_supported (st : Stage) : Supported (st.edits engine source) := by
  intro subject h
  unfold Stage.edits at h
  split at h
  next fault hfind =>
    cases h
    exact find_supported st.rule subject hfind
  next => cases h

/-- Stages are run in the language of the source, so none of them can be without one. -/
theorem runStages_supported (stages : List Stage) : Supported (source.runStages engine stages) := by
  induction stages generalizing source with
  | nil => exact nofun
  | cons st rest ih =>
      intro subject h
      rw [runStages] at h
      split at h
      next fault hedits =>
        cases h
        exact edits_supported st subject hedits
      next => exact ih subject h
      next =>
        split at h
        next fault hparse =>
          cases h
          exact ofText_supported _ _ subject hparse
        next => exact ih subject h

end Source

namespace Stage

/-- What stages make of a text in a language. -/
def runIn (engine : Engine) (stages : List Stage) (l : Language) (text : String) : Except Fault String :=
  match Source.ofText engine l text with
  | .error fault => .error fault
  | .ok source => (source.runStages engine stages).map (·.text)

theorem runIn_supported (engine : Engine) (stages : List Stage) (l : Language) (text : String) :
    Supported (runIn engine stages l text) := by
  intro subject h
  unfold runIn at h
  split at h
  next fault hparse =>
    cases h
    exact Source.ofText_supported l text subject hparse
  next source _ =>
    cases hrun : source.runStages engine stages with
    | ok left =>
        rw [hrun] at h
        cases h
    | error fault =>
        rw [hrun] at h
        cases h
        exact Source.runStages_supported stages subject hrun

end Stage

namespace Codemod

open CodeSweep.Language (lookup? detect?)

variable {engine : Engine} {name : String} {languages : List String} {stages : List Stage} {path : Path}
  {l : Language}

/-! ## The first declared language that claims an extension -/

/-- Of the named languages, `l` is the first that claims the extension. -/
def FirstToClaim (names : List String) (ext : String) (l : Language) : Prop :=
  ∃ before name after, names = before ++ name :: after ∧ lookup? name = some l ∧ l.claims ext = true ∧
    ∀ earlier ∈ before, ∀ other, lookup? earlier = some other → other.claims ext = false

theorem find?_lookup {names : List String} {ext : String} :
    (names.filterMap lookup?).find? (·.claims ext) = some l ↔ FirstToClaim names ext l := by
  constructor
  · intro h
    obtain ⟨hclaims, known, later, hsplit, hknown⟩ := List.find?_eq_some_iff_append.mp h
    obtain ⟨early, rest, rfl, rfl, hrest⟩ := List.filterMap_eq_append_iff.mp hsplit
    obtain ⟨strange, name, after, rfl, hstrange, hname, -⟩ := List.filterMap_eq_cons_iff.mp hrest
    refine ⟨early ++ strange, name, after, by rw [List.append_assoc], hname, hclaims, ?_⟩
    intro earlier hmem other hother
    rcases List.mem_append.mp hmem with hmem | hmem
    · simpa using hknown other (List.mem_filterMap.mpr ⟨earlier, hmem, hother⟩)
    -- names between the two that no language answers to
    · cases (hstrange earlier hmem).symm.trans hother
  · rintro ⟨before, name, after, rfl, hname, hclaims, hearlier⟩
    have hnone : (before.filterMap lookup?).find? (·.claims ext) = none := by
      rw [List.find?_eq_none]
      intro other hother
      obtain ⟨earlier, hmem, heq⟩ := List.mem_filterMap.mp hother
      simp [hearlier earlier hmem other heq]
    rw [List.filterMap_append, List.find?_append, hnone, List.filterMap_cons_some hname, Option.none_or]
    exact List.find?_cons_of_pos hclaims

/-! ## Declarative codemods -/

/-- The languages that a codemod declares, as far as they are known. -/
def declared (c : Codemod) : List Language := c.languages.filterMap lookup?

theorem transform_ofStages (text : String) : (ofStages engine name languages stages).transform text path =
    match languageFor? (ofStages engine name languages stages).declared path with
    | none => .error (.unsupportedLanguage path.text)
    | some l => Stage.runIn engine stages l text := rfl

/-- A declarative codemod parses the file at a path in language `l`, and it does so before all else. -/
structure ParsesIn (engine : Engine) (stages : List Stage) (c : Codemod) (path : Path) (l : Language) :
    Prop where
  picked : languageFor? c.declared path = some l
  parsed : ∀ text, c.transform text path = Stage.runIn engine stages l text
  supported : ∀ text, Supported (c.transform text path)

theorem parsesIn_of_picked
    (h : languageFor? (ofStages engine name languages stages).declared path = some l) :
    (ofStages engine name languages stages).ParsesIn engine stages path l := by
  have hparsed : ∀ text, (ofStages engine name languages stages).transform text path =
      Stage.runIn engine stages l text := by
    intro text
    rw [transform_ofStages, h]
  refine ⟨h, hparsed, fun text => ?_⟩
  rw [hparsed text]
  exact Stage.runIn_supported engine stages l text

/-- A file that is selected by its extension has a declared language that claims it; the first one is
picked. -/
theorem languageFor?_of_selected {c : Codemod} (hknown : ∃ name ∈ c.languages, lookup? name ≠ none)
    (h : path.isAmong c.extensions = true) : ∃ ext l, path.extension = some ext ∧
      FirstToClaim c.languages ext l ∧
      ∀ place : Path, place.extension = some ext → languageFor? c.declared place = some l := by
  obtain ⟨ext, hext, name, hname, other, hother, hlisted⟩ := (Path.isAmong_iff_lists hknown).mp h
  have hclaims : other.claims ext = true :=
    ((Language.lists_iff (Language.mem_all_of_lookup? hother) (Path.not_mem_extension hext)).mp hlisted).1
  have hsome : (c.declared.find? (·.claims ext)).isSome = true := by
    rw [List.find?_isSome]
    exact ⟨other, List.mem_filterMap.mpr ⟨name, hname, hother⟩, hclaims⟩
  obtain ⟨l, hfound⟩ := Option.isSome_iff_exists.mp hsome
  refine ⟨ext, l, hext, find?_lookup.mp hfound, ?_⟩
  intro place hplace
  rw [languageFor?, hplace, Option.bind_some, hfound, Option.some_or]

/-- Without a known name nothing but the extension tells the language. -/
theorem languageFor?_of_unknown (hunknown : ∀ name ∈ languages, lookup? name = none) (path : Path) :
    languageFor? (languages.filterMap lookup?) path = detect? path := by
  have hnone : languages.filterMap lookup? = [] := List.filterMap_eq_nil_iff.mpr hunknown
  rw [hnone, languageFor?]
  cases path.extension <;> rfl

theorem isAmong_of_unknown {c : Codemod} (hunknown : ∀ name ∈ c.languages, lookup? name = none) :
    path.isAmong c.extensions = true := by
  have hnone : c.languages.flatMap Language.resolve = [] := by
    rw [List.flatMap_eq_nil_iff]
    intro name hname
    rw [Language.resolve, hunknown name hname]
  rw [Path.isAmong, extensions, hnone]
  rfl

/-- Where no language is found for want of a known name, the file is refused; where one is, it is not. -/
theorem transform_refuses_iff
    (hunknown : ∀ name ∈ (ofStages engine name languages stages).languages, lookup? name = none)
    (text : String) :
    (∃ subject, (ofStages engine name languages stages).transform text path =
      .error (.unsupportedLanguage subject)) ↔ detect? path = none := by
  have hpick : languageFor? (ofStages engine name languages stages).declared path = detect? path :=
    languageFor?_of_unknown hunknown path
  cases hdetect : detect? path with
  | none =>
      rw [hdetect] at hpick
      rw [transform_ofStages, hpick]
      exact ⟨fun _ => rfl, fun _ => ⟨path.text, rfl⟩⟩
  | some l =>
      rw [hdetect] at hpick
      have hparses := parsesIn_of_picked hpick
      constructor
      · rintro ⟨subject, hrefused⟩
        exact absurd hrefused (hparses.supported text subject)
      · exact nofun

theorem mem_languages_ofStages {other : String} :
    other ∈ (ofStages engine name languages stages).languages ↔ other ∈ languages :=
  Ordered.mem_ofList

/-- **Selecting files and parsing them agree on the language.** The declared names are taken in the order
of their bytes. Where one of them is known, a selected file is parsed in the first declared language that
claims its extension, from whichever directory it is seen; where none is, every file is selected, and
refused exactly when no language is detected. -/
theorem ofStages_parses_selected (engine : Engine) (name : String) (languages : List String)
    (stages : List Stage) :
    let c := ofStages engine name languages stages
    (c.languages.Pairwise (fun a b => Text.bytesOf a < Text.bytesOf b) ∧
      ∀ other, other ∈ c.languages ↔ other ∈ languages) ∧
    ((∃ other ∈ languages, lookup? other ≠ none) → ∀ path, path.isAmong c.extensions = true →
      ∃ ext l, path.extension = some ext ∧ FirstToClaim c.languages ext l ∧
        c.ParsesIn engine stages path l ∧ ∀ root : Path, c.ParsesIn engine stages (root.join path) l) ∧
    ((∀ other ∈ languages, lookup? other = none) → ∀ path, path.isAmong c.extensions = true ∧
      ∀ text, (∃ subject, c.transform text path = .error (.unsupportedLanguage subject)) ↔
        detect? path = none) := by
  intro c
  refine ⟨⟨?_, fun other => mem_languages_ofStages⟩, ?_, ?_⟩
  · have hsorted : c.languages.Pairwise (compare · · = .lt) := Ordered.pairwise_ofList languages
    exact hsorted.imp Text.compare_eq_lt_iff.mp
  · rintro ⟨other, hother, hknown⟩ path hselected
    obtain ⟨ext, l, hext, hfirst, hpick⟩ :=
      languageFor?_of_selected (c := c) ⟨other, mem_languages_ofStages.mpr hother, hknown⟩ hselected
    refine ⟨ext, l, hext, hfirst, parsesIn_of_picked (hpick path hext), fun root => ?_⟩
    exact parsesIn_of_picked (hpick _ (Path.extension_join hext))
  · intro hunknown path
    have hlanguages : ∀ other ∈ c.languages, lookup? other = none :=
      fun other hother => hunknown other (mem_languages_ofStages.mp hother)
    exact ⟨isAmong_of_unknown hlanguages, transform_refuses_iff hlanguages⟩

/-- An engine that finds nothing. -/
def blind : Engine := Engine.ofTable [] []

/-- Two declared languages claim the file, and the one whose name is in capitals comes first; an unknown
name selects a file that no language is detected for. -/
theorem ofStages_parses_selected_overlap :
    (ofStages blind "tidy" ["js", "rust", "TS", "cobol"] []).languages = ["TS", "cobol", "js", "rust"] ∧
      Path.isAmong (ofStages blind "tidy" ["js", "rust", "TS", "cobol"] []).extensions ⟨"src/a.js"⟩ = true ∧
      (∃ l, l.name = "typescript" ∧ (ofStages blind "tidy" ["js", "rust", "TS", "cobol"] []).ParsesIn blind []
        ⟨"/ws/tidy/web/src/a.js"⟩ l) ∧
      Path.isAmong (ofStages blind "tidy" ["cobol"] []).extensions ⟨"Makefile"⟩ = true ∧
      ∃ subject, (ofStages blind "tidy" ["cobol"] []).transform "" ⟨"Makefile"⟩ =
        .error (.unsupportedLanguage subject) := by
  have hselected : Path.isAmong (ofStages blind "tidy" ["js", "rust", "TS", "cobol"] []).extensions
      ⟨"src/a.js"⟩ = true := by decide +kernel
  obtain ⟨-, hknown, -⟩ := ofStages_parses_selected blind "tidy" ["js", "rust", "TS", "cobol"] []
  obtain ⟨ext, l, -, -, hparses, hbelow⟩ :=
    hknown ⟨"js", by decide, by decide⟩ ⟨"src/a.js"⟩ hselected
  have hname : l.name = "typescript" := by
    have hpicked : (languageFor? (ofStages blind "tidy" ["js", "rust", "TS", "cobol"] []).declared
        ⟨"src/a.js"⟩).map (·.name) = some "typescript" := by decide +kernel
    rw [hparses.picked] at hpicked
    exact Option.some.inj hpicked
  obtain ⟨-, -, hunknown⟩ := ofStages_parses_selected blind "tidy" ["cobol"] []
  obtain ⟨hall, hrefuses⟩ := hunknown (by decide) ⟨"Makefile"⟩
  exact ⟨by decide +kernel, hselected, ⟨l, hname, hbelow ⟨"/ws/tidy/web"⟩⟩, hall,
    (hrefuses "").mpr (by decide)⟩

end Codemod

end CodeSweep
