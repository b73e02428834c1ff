import CodeSweep.Config
import CodeSweep.Proofs.Text.Ending
import Mathlib.Data.List.Forall2

/-! # What is checked of a configuration

The codemods of a configuration are checked in order, each of them by a row of checks, and the first check
that fails ends it all:

    name is new ──▶ name is not blank ──▶ has stages ──▶ languages are known ──▶ queries compile

What is asked of a codemod has no order (`Valid`); what is found in it has one, and so each way to fail comes
with the checks before it that went well (`Fails`, `Offends`). A codemod is valid or fails in one of these
ways (`valid_or_fails`), which settles what the check says in either case. The same is then shown of a whole
configuration, by induction on the codemods and with the names before them as what was taken
(`checkFrom_of_valid`, `checkFrom_of_offends`, `exists_offends`).

Codemods that were checked are made ready to run one by one. All that can still go wrong there is that a glob
cannot be read (`toCampaign_of_runsAs`, `toCampaign_of_unreadable`). -/

namespace CodeSweep

/-! ## The first of a list -/

section First

variable {α β ε : Type} {xs before after : List α} {ys : List β} {f : α → Except ε β} {e : ε}

/-- All of a list have a property, or there is a first one without it. -/
theorem forall_or_exists_first (p : α → Prop) (xs : List α) :
    (∀ x ∈ xs, p x) ∨ ∃ before x after, xs = before ++ x :: after ∧ (∀ y ∈ before, p y) ∧ ¬ p x := by
  induction xs with
  | nil => exact .inl nofun
  | cons x xs ih =>
      by_cases hx : p x
      · rcases ih with hall | ⟨before, y, after, rfl, hbefore, hy⟩
        · exact .inl (List.forall_mem_cons.mpr ⟨hx, hall⟩)
        · exact .inr ⟨x :: before, y, after, rfl, List.forall_mem_cons.mpr ⟨hx, hbefore⟩, hy⟩
      · exact .inr ⟨[], x, xs, rfl, nofun, hx⟩

theorem mapM_eq_ok_iff : xs.mapM f = .ok ys ↔ List.Forall₂ (fun x y => f x = .ok y) xs ys := by
  induction xs generalizing ys with
  | nil => cases ys <;> simp [pure, Except.pure]
  | cons x xs ih =>
      rw [List.mapM_cons]
      cases hx : f x with
      | error e => cases ys <;> simp [bind, Except.bind, hx]
      | ok y =>
          cases hxs : xs.mapM f with
          | error e => cases ys <;> simp [bind, Except.bind, hx, ← ih, hxs]
          | ok rest => cases ys <;> simp [bind, Except.bind, pure, Except.pure, hx, ← ih, hxs]

theorem exists_mapM_eq_ok (h : ∀ x ∈ xs, ∃ y, f x = .ok y) : ∃ ys, xs.mapM f = .ok ys := by
  induction xs with
  | nil => exact ⟨[], rfl⟩
  | cons x xs ih =>
      obtain ⟨⟨y, hy⟩, hrest⟩ := List.forall_mem_cons.mp h
      obtain ⟨ys, hys⟩ := ih hrest
      exact ⟨y :: ys, mapM_eq_ok_iff.mpr (.cons hy (mapM_eq_ok_iff.mp hys))⟩

/-- The first failure of a row is that of the row. -/
theorem mapM_of_error {x : α} (hbefore : ∀ y ∈ before, ∃ z, f y = .ok z) (hx : f x = .error e) :
    (before ++ x :: after).mapM f = .error e := by
  obtain ⟨ys, hys⟩ := exists_mapM_eq_ok hbefore
  rw [List.mapM_append, hys, List.mapM_cons, hx]
  rfl

end First

/-! ## What is asked of a codemod -/

/-- Some language goes by that name. -/
def Language.Known (name : String) : Prop := ∃ l, lookup? name = some l

namespace CodemodSpec

variable {engine : Engine} {c : CodemodSpec} {cause : ConfigFault}

/-- A query compiles under one of the declared languages. -/
def CompilesUnder (engine : Engine) (c : CodemodSpec) (query : String) : Prop :=
  ∃ name ∈ c.languages, ∃ l, Language.lookup? name = some l ∧
    ∃ captures, engine.compile l query = .ok captures

/-- The name is white space throughout. -/
def Unnamed (c : CodemodSpec) : Prop := ∀ ch ∈ c.name.toList, Text.isBlank ch = true

/-- What is asked of a codemod by itself. -/
structure Valid (engine : Engine) (c : CodemodSpec) : Prop where
  named : ¬ c.Unnamed
  staged : c.stages ≠ []
  known : ∀ name ∈ c.languages, Language.Known name
  compiled : c.languages ≠ [] → ∀ stage ∈ c.stages, c.CompilesUnder engine stage.query

/-- The first check that a codemod fails by itself, and what is said of it. -/
inductive Fails (engine : Engine) (c : CodemodSpec) : ConfigFault → Prop
  | unnamed (h : c.Unnamed) : Fails engine c .blankName
  | unstaged (hnamed : ¬ c.Unnamed) (h : c.stages = []) : Fails engine c (.noStages c.name)
  | unknown {known language rest} (hnamed : ¬ c.Unnamed) (hstaged : c.stages ≠ [])
      (hlanguages : c.languages = known ++ language :: rest)
      (hknown : ∀ name ∈ known, Language.Known name) (h : ¬ Language.Known language) :
      Fails engine c (.unknownLanguage c.name language)
  | uncompiled {compiled stage rest} (hnamed : ¬ c.Unnamed) (hdeclared : c.languages ≠ [])
      (hknown : ∀ name ∈ c.languages, Language.Known name)
      (hstages : c.stages = compiled ++ stage :: rest)
      (hcompiled : ∀ s ∈ compiled, c.CompilesUnder engine s.query)
      (h : ¬ c.CompilesUnder engine stage.query) :
      Fails engine c (.uncompiledQuery c.name (compiled.length + 1) c.languages)

/-- The first check that a codemod fails behind codemods of the given names. -/
inductive Offends (engine : Engine) (earlier : List String) (c : CodemodSpec) : ConfigFault → Prop
  | duplicate (h : c.name ∈ earlier) : Offends engine earlier c (.duplicateName c.name)
  | own {cause : ConfigFault} (hnew : c.name ∉ earlier) (h : c.Fails engine cause) :
      Offends engine earlier c cause

/-- Only which names are there matters of the names before a codemod. -/
theorem Offends.congr {names names' : List String} (h : c.Offends engine names cause)
    (hnames : ∀ name, name ∈ names ↔ name ∈ names') : c.Offends engine names' cause := by
  cases h with
  | duplicate h => exact .duplicate ((hnames _).mp h)
  | own hnew h => exact .own ((hnames _).not.mp hnew) h

theorem valid_or_fails (engine : Engine) (c : CodemodSpec) :
    c.Valid engine ∨ ∃ cause, c.Fails engine cause := by
  by_cases hnamed : c.Unnamed
  · exact .inr ⟨_, .unnamed hnamed⟩
  by_cases hstaged : c.stages = []
  · exact .inr ⟨_, .unstaged hnamed hstaged⟩
  rcases forall_or_exists_first Language.Known c.languages with
    hknown | ⟨known, language, rest, hlanguages, hknown, hunknown⟩
  · by_cases hdeclared : c.languages = []
    · exact .inl ⟨hnamed, hstaged, hknown, absurd hdeclared⟩
    rcases forall_or_exists_first (fun s => c.CompilesUnder engine s.query) c.stages with
      hcompiled | ⟨compiled, stage, rest, hstages, hcompiled, hstage⟩
    · exact .inl ⟨hnamed, hstaged, hknown, fun _ => hcompiled⟩
    · exact .inr ⟨_, .uncompiled hnamed hdeclared hknown hstages hcompiled hstage⟩
  · exact .inr ⟨_, .unknown hnamed hstaged hlanguages hknown hunknown⟩

/-! ### What the check finds -/

theorem isNone_lookup?_iff {name : String} :
    (Language.lookup? name).isNone = true ↔ ¬ Language.Known name := by
  rw [Option.isNone_iff_eq_none, Language.Known, ← Option.isSome_iff_exists, Option.not_isSome_iff_eq_none]

theorem unknownLanguage?_eq_none (h : ∀ name ∈ c.languages, Language.Known name) :
    c.unknownLanguage? = none := by
  apply List.find?_eq_none.mpr
  intro name hname
  rw [isNone_lookup?_iff, not_not]
  exact h name hname

theorem unknownLanguage?_eq_some {known rest : List String} {language : String}
    (hlanguages : c.languages = known ++ language :: rest)
    (hknown : ∀ name ∈ known, Language.Known name) (h : ¬ Language.Known language) :
    c.unknownLanguage? = some language := by
  apply List.find?_eq_some_iff_append.mpr
  refine ⟨isNone_lookup?_iff.mpr h, known, rest, hlanguages, fun name hname => ?_⟩
  rw [Bool.not_eq_true', Bool.eq_false_iff, Ne, isNone_lookup?_iff, not_not]
  exact hknown name hname

theorem compiles_iff {query : String} (hdeclared : c.languages ≠ [])
    (hknown : ∀ name ∈ c.languages, Language.Known name) :
    c.compiles engine query = true ↔ c.CompilesUnder engine query := by
  have hsome : (c.languages.filterMap Language.lookup?).isEmpty = false := by
    obtain ⟨name, rest, hlanguages⟩ := List.exists_cons_of_ne_nil hdeclared
    obtain ⟨l, hl⟩ := hknown name (by rw [hlanguages]; exact List.mem_cons_self)
    rw [hlanguages, List.filterMap_cons_some hl]
    rfl
  have hcompile : ∀ l, (engine.compile l query).toBool = true ↔
      ∃ captures, engine.compile l query = .ok captures := by
    intro l
    cases engine.compile l query <;> simp [Except.toBool]
  simp only [compiles, hsome, Bool.false_or, List.any_eq_true, List.mem_filterMap, hcompile]
  constructor
  · rintro ⟨l, ⟨name, hname, hl⟩, hcaptures⟩
    exact ⟨name, hname, l, hl, hcaptures⟩
  · rintro ⟨name, hname, l, hl, hcaptures⟩
    exact ⟨l, ⟨name, hname, hl⟩, hcaptures⟩

/-- Where no language is declared, no query is compiled. -/
theorem compiles_of_undeclared (h : c.languages = []) (query : String) :
    c.compiles engine query = true := by
  simp [compiles, h]

/-- The first checks, as the guards that they are. -/
theorem guards_of_staged (hnamed : ¬ c.Unnamed) (hstaged : c.stages ≠ []) :
    ¬ (Text.trim c.name).isEmpty = true ∧ ¬ c.stages.isEmpty = true :=
  ⟨Text.isEmpty_trim_iff.not.mpr hnamed, by simpa using hstaged⟩

theorem check_of_valid (h : c.Valid engine) : c.check engine = .ok () := by
  have hquery : ∀ stage ∈ c.stages, c.compiles engine stage.query = true := by
    intro stage hstage
    by_cases hdeclared : c.languages = []
    · exact compiles_of_undeclared hdeclared stage.query
    · exact (compiles_iff hdeclared h.known).mpr (h.compiled hdeclared stage hstage)
  have hstages : (c.stages.findIdx? fun stage => !c.compiles engine stage.query) = none := by
    simpa [List.findIdx?_eq_none_iff] using hquery
  obtain ⟨hname, hstaged⟩ := guards_of_staged h.named h.staged
  rw [check, if_neg hname, if_neg hstaged, unknownLanguage?_eq_none h.known, hstages]

theorem check_of_fails (h : c.Fails engine cause) : c.check engine = .error (.config cause) := by
  cases h with
  | unnamed h => rw [check, if_pos (Text.isEmpty_trim_iff.mpr h)]
  | unstaged hnamed h =>
      rw [check, if_neg (Text.isEmpty_trim_iff.not.mpr hnamed), if_pos (by simp [h])]
  | unknown hnamed hstaged hlanguages hknown h =>
      obtain ⟨hname, hstaged⟩ := guards_of_staged hnamed hstaged
      rw [check, if_neg hname, if_neg hstaged, unknownLanguage?_eq_some hlanguages hknown h]
  | @uncompiled compiled stage rest hnamed hdeclared hknown hstages hcompiled h =>
      obtain ⟨hname, hstaged⟩ := guards_of_staged hnamed (by simp [hstages])
      have hiff : ∀ query, c.compiles engine query = true ↔ c.CompilesUnder engine query :=
        fun query => compiles_iff hdeclared hknown
      have hfirst : (c.stages.findIdx? fun stage => !c.compiles engine stage.query) =
          some compiled.length := by
        have hnone : (compiled.findIdx? fun stage => !c.compiles engine stage.query) = none := by
          simpa [List.findIdx?_eq_none_iff, hiff] using hcompiled
        have hstage : c.compiles engine stage.query = false := by
          rw [Bool.eq_false_iff, Ne, hiff]
          exact h
        rw [hstages, List.findIdx?_append, hnone, List.findIdx?_cons, hstage]
        simp
      rw [check, if_neg hname, if_neg hstaged, unknownLanguage?_eq_none hknown, hfirst]

end CodemodSpec

/-! ## What a codemod is run as -/

/-- A text that is a glob. -/
def Glob.Readable (text : String) : Prop := ∃ g, parse text = .ok g

theorem Glob.exists_fault {text : String} (h : ¬ Readable text) :
    ∃ cause, parse text = .error (.glob text cause) := by
  unfold Readable parse at *
  cases hread : read none [] [] text.toList with
  | ok tokens =>
      rw [hread] at h
      exact absurd ⟨_, rfl⟩ h
  | error cause => exact ⟨cause, rfl⟩

namespace TargetFilter

variable {included excluded : List String} {wanted unwanted : List Glob} {fault : Fault}

theorem ofGlobs_of_ok (hwanted : Glob.parseAll included = .ok wanted)
    (hunwanted : Glob.parseAll excluded = .ok unwanted) :
    ofGlobs included excluded =
      .ok { include? := if wanted.isEmpty then none else some wanted, exclude := unwanted } := by
  rw [ofGlobs, hwanted, hunwanted]
  rfl

/-- The globs to include are read before those to exclude. -/
theorem ofGlobs_of_error (h : Glob.parseAll (included ++ excluded) = .error fault) :
    ofGlobs included excluded = .error fault := by
  rw [Glob.parseAll, List.mapM_append] at h
  unfold ofGlobs Glob.parseAll
  cases hwanted : included.mapM Glob.parse with
  | error found =>
      rw [hwanted] at h
      cases h
      rfl
  | ok wanted =>
      cases hunwanted : excluded.mapM Glob.parse with
      | error found =>
          rw [hwanted, hunwanted] at h
          cases h
          rfl
      | ok unwanted =>
          rw [hwanted, hunwanted] at h
          cases h

end TargetFilter

namespace CodemodSpec

variable {engine : Engine} {c : CodemodSpec} {campaign : Campaign} {text : String} {fault : GlobFault}

/-- All globs of the codemod can be read. -/
def Readable (c : CodemodSpec) : Prop := ∀ glob ∈ c.included ++ c.excluded, Glob.Readable glob

/-- The first of the codemod's globs that cannot be read, and why. -/
def Unreadable (c : CodemodSpec) (text : String) (fault : GlobFault) : Prop :=
  ∃ readable rest, c.included ++ c.excluded = readable ++ text :: rest ∧
    (∀ glob ∈ readable, Glob.Readable glob) ∧ Glob.parse text = .error (.glob text fault)

/-- The codemod as it is run on the paths that it accepts. -/
def running (engine : Engine) (c : CodemodSpec) (accepts? : Option (Path → Bool)) : Campaign where
  codemod := { Codemod.ofStages engine c.name c.languages (c.stages.map stageOf) with accepts? }
  tags := Ordered.names c.tags
  branch := c.branch.getD s!"codemods/{c.name}"
  message := c.message.getD s!"codemod: {c.name}"

/-- What a codemod is run as: on all paths if it has no globs, else on those that they let through. -/
inductive RunsAs (engine : Engine) (c : CodemodSpec) : Campaign → Prop
  | everywhere (hglobs : c.included = [] ∧ c.excluded = []) : RunsAs engine c (c.running engine none)
  | filtered {wanted unwanted} (hglobs : ¬ (c.included = [] ∧ c.excluded = []))
      (hwanted : List.Forall₂ (fun text g => Glob.parse text = .ok g) c.included wanted)
      (hunwanted : List.Forall₂ (fun text g => Glob.parse text = .ok g) c.excluded unwanted) :
      RunsAs engine c (c.running engine (some (TargetFilter.accepts
        { include? := if c.included = [] then none else some wanted, exclude := unwanted })))

theorem RunsAs.name_eq (h : c.RunsAs engine campaign) : campaign.codemod.name = c.name := by
  cases h <;> rfl

theorem exists_runsAs (engine : Engine) (h : c.Readable) : ∃ campaign, c.RunsAs engine campaign := by
  by_cases hglobs : c.included = [] ∧ c.excluded = []
  · exact ⟨_, .everywhere hglobs⟩
  obtain ⟨hincluded, hexcluded⟩ := List.forall_mem_append.mp h
  obtain ⟨wanted, hwanted⟩ := exists_mapM_eq_ok hincluded
  obtain ⟨unwanted, hunwanted⟩ := exists_mapM_eq_ok hexcluded
  exact ⟨_, .filtered hglobs (mapM_eq_ok_iff.mp hwanted) (mapM_eq_ok_iff.mp hunwanted)⟩

theorem exists_unreadable (h : ¬ c.Readable) : ∃ text fault, c.Unreadable text fault := by
  rcases forall_or_exists_first Glob.Readable (c.included ++ c.excluded) with
    hall | ⟨readable, text, rest, hglobs, hreadable, htext⟩
  · exact absurd hall h
  · obtain ⟨fault, hfault⟩ := Glob.exists_fault htext
    exact ⟨text, fault, readable, rest, hglobs, hreadable, hfault⟩

theorem toCampaign_of_valid (h : c.Valid engine) : c.toCampaign engine =
    if c.included = [] ∧ c.excluded = [] then .ok (c.running engine none)
    else (TargetFilter.ofGlobs c.included c.excluded).map fun filter =>
      c.running engine (some filter.accepts) := by
  have hempty : (c.included.isEmpty && c.excluded.isEmpty) = true ↔ c.included = [] ∧ c.excluded = [] := by
    simp
  rw [toCampaign, check_of_valid h]
  by_cases hglobs : c.included = [] ∧ c.excluded = []
  · rw [if_pos hglobs, if_pos (hempty.mpr hglobs)]
    rfl
  · rw [if_neg hglobs, if_neg (hempty.not.mpr hglobs)]
    cases TargetFilter.ofGlobs c.included c.excluded <;> rfl

theorem toCampaign_of_runsAs (hvalid : c.Valid engine) (h : c.RunsAs engine campaign) :
    c.toCampaign engine = .ok campaign := by
  rw [toCampaign_of_valid hvalid]
  cases h with
  | everywhere hglobs => rw [if_pos hglobs]
  | @filtered wanted unwanted hglobs hwanted hunwanted =>
      have hnone : wanted.isEmpty = true ↔ c.included = [] := by
        rw [List.isEmpty_iff, ← List.length_eq_zero_iff, ← hwanted.length_eq, List.length_eq_zero_iff]
      have hfilter := TargetFilter.ofGlobs_of_ok (mapM_eq_ok_iff.mpr hwanted) (mapM_eq_ok_iff.mpr hunwanted)
      simp only [hnone] at hfilter
      rw [if_neg hglobs, hfilter]
      rfl

theorem toCampaign_of_unreadable (hvalid : c.Valid engine) (h : c.Unreadable text fault) :
    c.toCampaign engine = .error (.glob text fault) := by
  obtain ⟨readable, rest, hsplit, hreadable, htext⟩ := h
  have hglobs : ¬ (c.included = [] ∧ c.excluded = []) := by
    rintro ⟨hincluded, hexcluded⟩
    simp [hincluded, hexcluded] at hsplit
  have hparse : Glob.parseAll (c.included ++ c.excluded) = .error (.glob text fault) := by
    rw [hsplit]
    exact mapM_of_error hreadable htext
  rw [toCampaign_of_valid hvalid, if_neg hglobs, TargetFilter.ofGlobs_of_error hparse]
  rfl

/-- Only valid codemods are run. -/
theorem valid_of_toCampaign (h : c.toCampaign engine = .ok campaign) : c.Valid engine := by
  rcases valid_or_fails engine c with hvalid | ⟨cause, hfails⟩
  · exact hvalid
  · rw [toCampaign, check_of_fails hfails] at h
    cases h

theorem runsAs_of_toCampaign (h : c.toCampaign engine = .ok campaign) : c.RunsAs engine campaign := by
  have hvalid := valid_of_toCampaign h
  by_cases hreadable : c.Readable
  · obtain ⟨ready, hready⟩ := exists_runsAs engine hreadable
    rw [toCampaign_of_runsAs hvalid hready] at h
    cases h
    exact hready
  · obtain ⟨text, fault, hunreadable⟩ := exists_unreadable hreadable
    rw [toCampaign_of_unreadable hvalid hunreadable] at h
    cases h

end CodemodSpec

/-! ## A whole configuration -/

namespace Config

open CodemodSpec

variable {engine : Engine} {taken : List String} {codemods before after : List CodemodSpec}
  {c : CodemodSpec} {cause : ConfigFault} {fault : Fault}

theorem checkFrom_cons_of_valid (hnew : c.name ∉ taken) (h : c.Valid engine) :
    checkFrom engine taken (c :: codemods) = checkFrom engine (c.name :: taken) codemods := by
  rw [checkFrom, if_neg (by simpa using hnew), check_of_valid h]

theorem checkFrom_cons_of_offends (h : c.Offends engine taken cause) :
    checkFrom engine taken (c :: codemods) = .error (.config cause) := by
  cases h with
  | duplicate h => rw [checkFrom, if_pos (by simpa using h)]
  | own hnew h => rw [checkFrom, if_neg (by simpa using hnew), check_of_fails h]

/-- One codemod behind others is new and valid, or it offends. -/
theorem new_or_offends (engine : Engine) (taken : List String) (c : CodemodSpec) :
    (c.name ∉ taken ∧ c.Valid engine) ∨ ∃ cause, c.Offends engine taken cause := by
  by_cases htaken : c.name ∈ taken
  · exact .inr ⟨_, .duplicate htaken⟩
  rcases valid_or_fails engine c with hvalid | ⟨cause, hfails⟩
  · exact .inl ⟨htaken, hvalid⟩
  · exact .inr ⟨cause, .own htaken hfails⟩

/-- What an accepted row of codemods is like. -/
theorem checkFrom_spec (h : checkFrom engine taken codemods = .ok ()) :
    (codemods.map (·.name)).Nodup ∧ ∀ c ∈ codemods, c.name ∉ taken ∧ c.Valid engine := by
  induction codemods generalizing taken with
  | nil => exact ⟨List.nodup_nil, nofun⟩
  | cons c rest ih =>
      rcases new_or_offends engine taken c with ⟨hnew, hvalid⟩ | ⟨cause, hoffends⟩
      · rw [checkFrom_cons_of_valid hnew hvalid] at h
        obtain ⟨hnodup, hall⟩ := ih h
        refine ⟨?_, List.forall_mem_cons.mpr ⟨⟨hnew, hvalid⟩, fun other hother => ?_⟩⟩
        · rw [List.map_cons, List.nodup_cons]
          refine ⟨fun hmem => ?_, hnodup⟩
          obtain ⟨other, hother, hname⟩ := List.mem_map.mp hmem
          exact (hall other hother).1 (by simp [hname])
        · obtain ⟨hother, hvalid⟩ := hall other hother
          exact ⟨fun hmem => hother (List.mem_cons_of_mem _ hmem), hvalid⟩
      · rw [checkFrom_cons_of_offends hoffends] at h
        cases h

theorem checkFrom_of_valid (hnodup : (codemods.map (·.name)).Nodup)
    (h : ∀ c ∈ codemods, c.name ∉ taken ∧ c.Valid engine) : checkFrom engine taken codemods = .ok () := by
  induction codemods generalizing taken with
  | nil => rfl
  | cons c rest ih =>
      obtain ⟨⟨hnew, hvalid⟩, hall⟩ := List.forall_mem_cons.mp h
      rw [List.map_cons, List.nodup_cons] at hnodup
      rw [checkFrom_cons_of_valid hnew hvalid]
      apply ih hnodup.2
      intro other hother
      obtain ⟨htaken, hvalid⟩ := hall other hother
      refine ⟨fun hmem => ?_, hvalid⟩
      rcases List.mem_cons.mp hmem with hsame | hmem
      · exact hnodup.1 (hsame ▸ List.mem_map_of_mem hother)
      · exact htaken hmem

/-- The name of a codemod that went through is among those that are taken. -/
theorem offends_cons_iff {b : CodemodSpec} :
    c.Offends engine (before.map (·.name) ++ b.name :: taken) cause ↔
      c.Offends engine ((b :: before).map (·.name) ++ taken) cause := by
  have hnames : ∀ name, name ∈ before.map (·.name) ++ b.name :: taken ↔
      name ∈ (b :: before).map (·.name) ++ taken := by
    intro name
    simp only [List.map_cons, List.cons_append, List.mem_cons, List.mem_append]
    exact or_left_comm
  exact ⟨fun h => h.congr hnames, fun h => h.congr fun name => (hnames name).symm⟩

/-- A codemod that offends behind others that go through is what is reported. -/
theorem checkFrom_of_offends (hbefore : checkFrom engine taken before = .ok ())
    (h : c.Offends engine (before.map (·.name) ++ taken) cause) :
    checkFrom engine taken (before ++ c :: after) = .error (.config cause) := by
  induction before generalizing taken with
  | nil => exact checkFrom_cons_of_offends h
  | cons b before ih =>
      rcases new_or_offends engine taken b with ⟨hnew, hvalid⟩ | ⟨cause, hoffends⟩
      · rw [checkFrom_cons_of_valid hnew hvalid] at hbefore
        rw [List.cons_append, checkFrom_cons_of_valid hnew hvalid]
        exact ih hbefore (offends_cons_iff.mpr h)
      · rw [checkFrom_cons_of_offends hoffends] at hbefore
        cases hbefore

/-- What is reported of a row of codemods is what the first one that offends is reported for. -/
theorem exists_offends (h : checkFrom engine taken codemods = .error fault) :
    ∃ before c after cause, codemods = before ++ c :: after ∧ checkFrom engine taken before = .ok () ∧
      c.Offends engine (before.map (·.name) ++ taken) cause ∧ fault = .config cause := by
  induction codemods generalizing taken with
  | nil => cases h
  | cons c rest ih =>
      rcases new_or_offends engine taken c with ⟨hnew, hvalid⟩ | ⟨cause, hoffends⟩
      · rw [checkFrom_cons_of_valid hnew hvalid] at h
        obtain ⟨before, d, after, cause, rfl, hbefore, hoffends, hfault⟩ := ih h
        refine ⟨c :: before, d, after, cause, rfl, ?_, offends_cons_iff.mp hoffends, hfault⟩
        rw [checkFrom_cons_of_valid hnew hvalid]
        exact hbefore
      · rw [checkFrom_cons_of_offends hoffends] at h
        cases h
        exact ⟨[], c, rest, cause, rfl, rfl, hoffends, rfl⟩

variable {config : Config} {campaigns : List Campaign}

theorem checkFrom_nil_iff : checkFrom engine [] codemods = .ok () ↔
    (codemods.map (·.name)).Nodup ∧ ∀ c ∈ codemods, c.Valid engine := by
  constructor
  · intro h
    obtain ⟨hnodup, hall⟩ := checkFrom_spec h
    exact ⟨hnodup, fun c hc => (hall c hc).2⟩
  · rintro ⟨hnodup, hall⟩
    exact checkFrom_of_valid hnodup fun c hc => ⟨List.not_mem_nil, hall c hc⟩

theorem check_eq_error_iff : config.check engine = .error fault ↔
    ∃ before c after cause, config.codemods = before ++ c :: after ∧
      (before.map (·.name)).Nodup ∧ (∀ b ∈ before, b.Valid engine) ∧
      c.Offends engine (before.map (·.name)) cause ∧ fault = .config cause := by
  constructor
  · intro h
    obtain ⟨before, c, after, cause, hcodemods, hbefore, hoffends, hfault⟩ := exists_offends h
    obtain ⟨hnodup, hvalid⟩ := checkFrom_nil_iff.mp hbefore
    rw [List.append_nil] at hoffends
    exact ⟨before, c, after, cause, hcodemods, hnodup, hvalid, hoffends, hfault⟩
  · rintro ⟨before, c, after, cause, hcodemods, hnodup, hvalid, hoffends, rfl⟩
    rw [check, hcodemods]
    apply checkFrom_of_offends (checkFrom_nil_iff.mpr ⟨hnodup, hvalid⟩)
    rwa [List.append_nil]

/-- The codemods that are run are those of the configuration, in order. -/
theorem runsAs_of_campaigns (h : config.campaigns engine = .ok campaigns) :
    List.Forall₂ (RunsAs engine) config.codemods campaigns :=
  (mapM_eq_ok_iff.mp h).imp fun _ _ => runsAs_of_toCampaign

section Valid

variable (hvalid : ∀ c ∈ config.codemods, c.Valid engine)

include hvalid

theorem campaigns_eq_ok_iff : config.campaigns engine = .ok campaigns ↔
    List.Forall₂ (RunsAs engine) config.codemods campaigns := by
  refine ⟨runsAs_of_campaigns, fun h => ?_⟩
  have hboth := (List.forall₂_and_left _ _).mpr ⟨hvalid, h⟩
  exact mapM_eq_ok_iff.mpr (hboth.imp fun c campaign hc => toCampaign_of_runsAs hc.1 hc.2)

theorem campaigns_eq_error_iff : config.campaigns engine = .error fault ↔
    ∃ before c after text cause, config.codemods = before ++ c :: after ∧
      (∀ b ∈ before, b.Readable) ∧ c.Unreadable text cause ∧ fault = .glob text cause := by
  have hready : ∀ c ∈ config.codemods, c.Readable → ∃ campaign, c.toCampaign engine = .ok campaign := by
    intro c hc hreadable
    obtain ⟨campaign, hcampaign⟩ := exists_runsAs engine hreadable
    exact ⟨campaign, toCampaign_of_runsAs (hvalid c hc) hcampaign⟩
  have hfirst : ∀ before c after text cause, config.codemods = before ++ c :: after →
      (∀ b ∈ before, b.Readable) → c.Unreadable text cause →
        config.campaigns engine = .error (.glob text cause) := by
    intro before c after text cause hcodemods hbefore hunreadable
    rw [hcodemods] at hvalid hready
    rw [campaigns, hcodemods]
    apply mapM_of_error
    · exact fun b hb => hready b (List.mem_append_left _ hb) (hbefore b hb)
    · exact toCampaign_of_unreadable (hvalid c (by simp)) hunreadable
  constructor
  · intro h
    rcases forall_or_exists_first CodemodSpec.Readable config.codemods with
      hall | ⟨before, c, after, hcodemods, hbefore, hc⟩
    · obtain ⟨campaigns, hcampaigns⟩ := exists_mapM_eq_ok fun c hc => hready c hc (hall c hc)
      cases hcampaigns.symm.trans h
    · obtain ⟨text, cause, hunreadable⟩ := exists_unreadable hc
      cases (hfirst before c after text cause hcodemods hbefore hunreadable).symm.trans h
      exact ⟨before, c, after, text, cause, hcodemods, hbefore, hunreadable, rfl⟩
  · rintro ⟨before, c, after, text, cause, hcodemods, hbefore, hunreadable, rfl⟩
    exact hfirst before c after text cause hcodemods hbefore hunreadable

end Valid

/-- **A configuration is checked exactly and in order.** It is accepted when its names are different and
each codemod is valid; else the first codemod that offends behind those before it is reported, for the first
check that it fails. The codemods of an accepted configuration are run one for one and in order, unless
one of them has a glob that cannot be read: then the first such glob of the first such codemod is
reported. -/
theorem check_exact (engine : Engine) (config : Config) :
    (config.check engine = .ok () ↔
      (config.codemods.map (·.name)).Nodup ∧ ∀ c ∈ config.codemods, c.Valid engine) ∧
    (∀ fault, config.check engine = .error fault ↔
      ∃ before c after cause, config.codemods = before ++ c :: after ∧
        (before.map (·.name)).Nodup ∧ (∀ b ∈ before, b.Valid engine) ∧
        c.Offends engine (before.map (·.name)) cause ∧ fault = .config cause) ∧
    (config.check engine = .ok () →
      (∀ campaigns, config.campaigns engine = .ok campaigns ↔
        List.Forall₂ (RunsAs engine) config.codemods campaigns) ∧
      ∀ fault, config.campaigns engine = .error fault ↔
        ∃ before c after text cause, config.codemods = before ++ c :: after ∧
          (∀ b ∈ before, b.Readable) ∧ c.Unreadable text cause ∧ fault = .glob text cause) := by
  refine ⟨checkFrom_nil_iff, fun fault => check_eq_error_iff, fun h => ?_⟩
  obtain ⟨-, hvalid⟩ := checkFrom_nil_iff.mp h
  exact ⟨fun campaigns => campaigns_eq_ok_iff hvalid, fun fault => campaigns_eq_error_iff hvalid⟩

theorem check_of_toBool (engine : Engine) (config : Config)
    (h : (config.check engine).toBool = true) : config.check engine = .ok () := by
  cases hcheck : config.check engine with
  | error fault => simp [hcheck, Except.toBool] at h
  | ok _ => rfl

/-- An engine that knows queries for one language only. -/
def choosy : Engine where
  compile l query := if l.name = "python" then .ok [] else .error query
  captures _ _ _ := []

/-- A codemod of a stage, with a glob to exclude. -/
def excluding (name glob : String) (languages : List String) : CodemodSpec where
  name
  languages
  excluded := [glob]
  stages := [{ query := "(string) @s", replace := "" }]

/-- Two codemods, the second of them with a glob that does not end. -/
def halfReadable : Config where
  codemods := [excluding "greet" "docs/*" ["python"], excluding "shout" "docs/[" ["rust", "python"]]

/-- Both codemods are accepted, and the glob of the second one is reported when they are made ready. -/
theorem check_exact_halfReadable :
    halfReadable.check choosy = .ok () ∧
      halfReadable.campaigns choosy = .error (.glob "docs/[" .unclosedClass) := by
  have hcheck := check_of_toBool choosy halfReadable (by decide +kernel)
  obtain ⟨-, -, hrun⟩ := check_exact choosy halfReadable
  refine ⟨hcheck, ((hrun hcheck).2 _).mpr ?_⟩
  refine ⟨[excluding "greet" "docs/*" ["python"]], excluding "shout" "docs/[" ["rust", "python"], [],
    "docs/[", .unclosedClass, rfl, ?_, ⟨[], [], rfl, nofun, by cbv⟩, rfl⟩
  intro b hb glob hglob
  obtain rfl := List.mem_singleton.mp hb
  obtain rfl := List.mem_singleton.mp hglob
  exact ⟨_, by with_unfolding_all rfl⟩

end Config

end CodeSweep
