import CodeSweep.Proofs.Stage.Agreement
import Mathlib.Algebra.GroupWithZero.Nat

/-! # The record of a draft

A draft keeps its source after each batch of edits and counts the edits that were applied. However
batches are committed and stages run on it, the record is true (`performAll_records`): there is one entry
for each batch that holds edits, an entry is its batch committed on the entry before, and the count is
the sum of what the batches applied.

Which batches there are is told by the source alone (`Source.committed`), without the record. One batch
adds what it should (`commit_advances`), and so do the batches of stages and of whole runs
(`runStages_advances`, `performAll_advances`): what was recorded stays as it was, and what is new
follows it. -/

namespace CodeSweep

/-! ## Batches of edits -/

namespace Edit

theorem splice_of_none_applied {cursor : Nat} {rest : List Char} {edits : List Edit}
    (h : (splice cursor rest edits).2 = 0) : (splice cursor rest edits).1 = rest := by
  induction edits generalizing cursor rest with
  | nil => rfl
  | cons e es ih =>
      rw [splice] at h ⊢
      split at h
      next => exact ih h
      next => cases h

/-- A batch of which no edit is applied leaves the text as it is. -/
theorem commit_of_none_applied {source : String} {edits : List Edit}
    (h : (commit source edits).applied = 0) : (commit source edits).text = source := by
  have hsplice := splice_of_none_applied h
  show String.ofList _ = source
  rw [hsplice, String.ofList_toList]

end Edit

namespace Source

/-- The sources that batches lead through: each batch holds edits and is committed on the source that
the one before it left. -/
inductive Commits (engine : Engine) : Source → List (List Edit) → List Source → Prop
  | nil {s} : Commits engine s [] []
  | cons {s next edits batches later} (filled : edits ≠ [])
      (first : s.reparse engine (Edit.commit s.text edits).text = .ok next)
      (rest : Commits engine next batches later) :
      Commits engine s (edits :: batches) (next :: later)

/-- How many edits were applied on the way through the sources. -/
def applied (s : Source) (batches : List (List Edit)) (later : List Source) : Nat :=
  (List.zipWith (fun before edits => (Edit.commit before.text edits).applied) (s :: later) batches).sum

/-- The last of the sources. -/
def last (s : Source) (later : List Source) : Source := later.getLast?.getD s

variable {engine : Engine} {s next : Source} {batches more : List (List Edit)} {later further : List Source}

theorem last_cons : s.last (next :: later) = next.last later := by
  rw [last, last, List.getLast?_cons]
  rfl

theorem reparse_eq_ok {text : String} (h : s.reparse engine text = .ok next) :
    next = { s with text } := by
  unfold reparse ofText at h
  split at h
  next => cases h
  next => exact (Except.ok.inj h).symm

namespace Commits

theorem length_eq (h : s.Commits engine batches later) : later.length = batches.length := by
  induction h with
  | nil => rfl
  | cons _ _ _ ih => rw [List.length_cons, List.length_cons, ih]

theorem forall_filled (h : s.Commits engine batches later) : ∀ edits ∈ batches, edits ≠ [] := by
  induction h with
  | nil => simp
  | cons filled _ _ ih => exact List.forall_mem_cons.mpr ⟨filled, ih⟩

theorem append (h : s.Commits engine batches later) (h' : (s.last later).Commits engine more further) :
    s.Commits engine (batches ++ more) (later ++ further) := by
  induction h with
  | nil => exact h'
  | cons filled first _ ih =>
      rw [last_cons] at h'
      exact .cons filled first (ih h')

theorem last_append (h : s.Commits engine batches later) :
    s.last (later ++ further) = (s.last later).last further := by
  induction h with
  | nil => rfl
  | cons _ _ _ ih => rw [List.cons_append, last_cons, last_cons, ih]

theorem applied_append (h : s.Commits engine batches later) :
    s.applied (batches ++ more) (later ++ further) =
      s.applied batches later + (s.last later).applied more further := by
  induction h with
  | nil => simp [applied, last]
  | cons _ _ _ ih =>
      rw [last_cons]
      simp only [applied, List.cons_append, List.zipWith_cons_cons, List.sum_cons] at ih ⊢
      omega

/-- The source after a batch is the source before it with the batch committed. -/
theorem entry (h : s.Commits engine batches later) {k : Nat} {edits : List Edit}
    (hk : batches[k]? = some edits) :
    ∃ before, (s :: later)[k]? = some before ∧
      later[k]? = some { before with text := (Edit.commit before.text edits).text } := by
  induction h generalizing k with
  | nil => simp at hk
  | @cons s next first batches later _ hfirst _ ih =>
      cases k with
      | zero =>
          rw [List.getElem?_cons_zero, Option.some.injEq] at hk
          subst hk
          exact ⟨s, rfl, by rw [List.getElem?_cons_zero, reparse_eq_ok hfirst]⟩
      | succ k =>
          rw [List.getElem?_cons_succ] at hk
          simpa only [List.getElem?_cons_succ] using ih hk

/-- Where nothing was applied, nothing has changed. -/
theorem text_last (h : s.Commits engine batches later) (hnone : s.applied batches later = 0) :
    (s.last later).text = s.text := by
  induction h with
  | nil => rfl
  | cons _ first _ ih =>
      simp only [applied, List.zipWith_cons_cons, List.sum_cons, Nat.add_eq_zero_iff] at hnone
      rw [last_cons, ih hnone.2, reparse_eq_ok first]
      exact Edit.commit_of_none_applied hnone.1

end Commits

end Source

/-! ## Operations -/

/-- What can be done with a draft. -/
inductive Draft.Operation where
  | commit (edits : List Edit)
  | run (stages : List Stage)

namespace Source

/-- The batches that stages make of a source, one for each stage, and the source that they lead to. -/
def stageBatches (engine : Engine) (s : Source) : List Stage → Except Fault (List (List Edit) × Source)
  | [] => .ok ([], s)
  | st :: rest =>
    (st.edits engine s).bind fun edits =>
      (s.advance engine edits).bind fun next =>
        (next.stageBatches engine rest).map fun (batches, last) => (edits :: batches, last)

/-- The batches of an operation, and the source that they lead to. -/
def batchesOf (engine : Engine) (s : Source) :
    Draft.Operation → Except Fault (List (List Edit) × Source)
  | .commit edits => (s.advance engine edits).map fun next => ([edits], next)
  | .run stages => s.stageBatches engine stages

/-- The batches with edits in them that operations commit, one operation after the other. One that fails
commits none. -/
def committed (engine : Engine) (s : Source) : List Draft.Operation → List (List Edit)
  | [] => []
  | op :: rest =>
    match s.batchesOf engine op with
    | .error _ => s.committed engine rest
    | .ok (batches, next) => batches.filter (!·.isEmpty) ++ next.committed engine rest

end Source

namespace Draft

variable {engine : Engine} {d d' d'' : Draft} {batches more : List (List Edit)} {later further : List Source}

/-- Performs an operation. -/
def perform (engine : Engine) (d : Draft) : Operation → Except Fault Draft
  | .commit edits => d.commit engine edits
  | .run stages => d.runStages engine stages

/-- Performs operations one after the other. One that fails leaves the draft as it was. -/
def performAll (engine : Engine) (d : Draft) : List Operation → Draft
  | [] => d
  | op :: rest =>
    match d.perform engine op with
    | .error _ => d.performAll engine rest
    | .ok next => next.performAll engine rest

/-- A draft goes through batches: the sources that they lead through are added to its history, what they
apply is added to its count, and it ends with the last of the sources. -/
structure Advances (engine : Engine) (d : Draft) (batches : List (List Edit)) (later : List Source)
    (d' : Draft) : Prop where
  commits : d.source.Commits engine batches later
  source : d'.source = d.source.last later
  history : d'.history = d.history ++ later
  changes : d'.changes = d.changes + d.source.applied batches later
  language : d'.language = d.language
  filename : d'.filename = d.filename

theorem Advances.refl (d : Draft) : d.Advances engine [] [] d :=
  ⟨.nil, rfl, (List.append_nil _).symm, rfl, rfl, rfl⟩

theorem Advances.trans (h : d.Advances engine batches later d') (h' : d'.Advances engine more further d'') :
    d.Advances engine (batches ++ more) (later ++ further) d'' := by
  have hfurther := h.source ▸ h'.commits
  refine ⟨h.commits.append hfurther, ?_, ?_, ?_, ?_, ?_⟩
  · rw [h'.source, h.source, h.commits.last_append]
  · rw [h'.history, h.history, List.append_assoc]
  · rw [h'.changes, h.changes, h.source, h.commits.applied_append, Nat.add_assoc]
  · rw [h'.language, h.language]
  · rw [h'.filename, h.filename]

/-- A batch is recorded if it holds edits, and is no event otherwise. -/
theorem commit_advances (engine : Engine) (d : Draft) (edits : List Edit) :
    (∃ fault, d.commit engine edits = .error fault ∧ d.source.advance engine edits = .error fault) ∨
      ∃ d' later, d.commit engine edits = .ok d' ∧ d.source.advance engine edits = .ok d'.source ∧
        d.Advances engine ([edits].filter (!·.isEmpty)) later d' := by
  unfold commit Source.advance
  cases edits with
  | nil => exact .inr ⟨d, [], rfl, rfl, .refl d⟩
  | cons e es =>
      simp only [List.isEmpty_cons, Bool.false_eq_true, if_false]
      cases hnext : d.source.reparse engine (Edit.commit d.source.text (e :: es)).text with
      | error fault => exact .inl ⟨fault, rfl, rfl⟩
      | ok next =>
          refine .inr ⟨_, [next], rfl, rfl, .cons (List.cons_ne_nil e es) hnext .nil, rfl, rfl, ?_, rfl, rfl⟩
          simp [Source.applied]

/-- Stages are recorded one by one. -/
theorem runStages_advances (engine : Engine) (d : Draft) (stages : List Stage) :
    (∃ fault, d.runStages engine stages = .error fault ∧
      d.source.stageBatches engine stages = .error fault) ∨
      ∃ d' batches later, d.runStages engine stages = .ok d' ∧
        d.source.stageBatches engine stages = .ok (batches, d'.source) ∧
        d.Advances engine (batches.filter (!·.isEmpty)) later d' := by
  induction stages generalizing d with
  | nil => exact .inr ⟨d, [], [], rfl, rfl, .refl d⟩
  | cons st rest ih =>
      rw [runStages_cons, Source.stageBatches]
      cases st.edits engine d.source with
      | error fault => exact .inl ⟨fault, rfl, rfl⟩
      | ok edits =>
          rcases d.commit_advances engine edits with
            ⟨fault, hcommit, hadvance⟩ | ⟨d', later, hcommit, hadvance, hfirst⟩
          · exact .inl ⟨fault, by simp [Except.bind, hcommit], by simp [Except.bind, hadvance]⟩
          · rcases ih d' with ⟨fault, hrun, hrest⟩ | ⟨d'', batches, further, hrun, hrest, hlater⟩
            · exact .inl ⟨fault, by simp [Except.bind, hcommit, hrun],
                by simp [Except.bind, Except.map, hadvance, hrest]⟩
            · have hboth := hfirst.trans hlater
              rw [← List.filter_append] at hboth
              exact .inr ⟨d'', edits :: batches, later ++ further, by simp [Except.bind, hcommit, hrun],
                by simp [Except.bind, Except.map, hadvance, hrest], hboth⟩

theorem perform_advances (engine : Engine) (d : Draft) (op : Operation) :
    (∃ fault, d.perform engine op = .error fault ∧ d.source.batchesOf engine op = .error fault) ∨
      ∃ d' batches later, d.perform engine op = .ok d' ∧
        d.source.batchesOf engine op = .ok (batches, d'.source) ∧
        d.Advances engine (batches.filter (!·.isEmpty)) later d' := by
  cases op with
  | run stages => exact d.runStages_advances engine stages
  | commit edits =>
      rw [perform, Source.batchesOf]
      rcases d.commit_advances engine edits with
        ⟨fault, hcommit, hadvance⟩ | ⟨d', later, hcommit, hadvance, hfirst⟩
      · exact .inl ⟨fault, hcommit, by rw [hadvance]; rfl⟩
      · exact .inr ⟨d', [edits], later, hcommit, by rw [hadvance]; rfl, hfirst⟩

/-- A whole run adds the batches that it commits to what was recorded. -/
theorem performAll_advances (engine : Engine) (d : Draft) (ops : List Operation) :
    ∃ later, d.Advances engine (d.source.committed engine ops) later (d.performAll engine ops) := by
  induction ops generalizing d with
  | nil => exact ⟨[], .refl d⟩
  | cons op rest ih =>
      rw [performAll, Source.committed]
      rcases d.perform_advances engine op with
        ⟨fault, hperform, hbatches⟩ | ⟨d', batches, later, hperform, hbatches, hfirst⟩
      · rw [hperform, hbatches]
        exact ih d
      · rw [hperform, hbatches]
        obtain ⟨further, hrest⟩ := ih d'
        exact ⟨later ++ further, hfirst.trans hrest⟩

/-- The record of a draft is true: it tells of these batches, committed on the original source one after
the other. -/
structure Records (d : Draft) (original : Source) (filename : Option Path)
    (batches : List (List Edit)) : Prop where
  filled : ∀ edits ∈ batches, edits ≠ []
  count : d.history.length = batches.length
  /-- An entry is its batch committed on the entry before it, the first one on the original. -/
  entries : ∀ (k : Nat) edits, batches[k]? = some edits → ∃ before : Source,
    (original :: d.history)[k]? = some before ∧
      d.history[k]? = some { before with text := (Edit.commit before.text edits).text }
  /-- The draft stands at its last entry, or at the original if there is none. -/
  current : d.source = d.history.getLast?.getD original
  changes : d.changes =
    (List.zipWith (fun before edits => (Edit.commit before.text edits).applied)
      (original :: d.history) batches).sum
  language : d.language = original.language.name
  filename : d.filename = filename
  unchanged : d.changes = 0 → d.source.text = original.text

/-- **The record of a draft is true, whatever was done with it.** Batches may hold any edits, stages may
fail; and whatever is done later keeps what was recorded. -/
theorem performAll_records (engine : Engine) (source : Source) (filename : Option Path)
    (ops more : List Operation) :
    ((start source filename).performAll engine ops).Records source filename
        (source.committed engine ops) ∧
      ((start source filename).performAll engine ops).history <+:
        (((start source filename).performAll engine ops).performAll engine more).history ∧
      ((start source filename).performAll engine ops).changes ≤
        (((start source filename).performAll engine ops).performAll engine more).changes := by
  obtain ⟨later, hrun⟩ := (start source filename).performAll_advances engine ops
  obtain ⟨further, hmore⟩ :=
    ((start source filename).performAll engine ops).performAll_advances engine more
  have hhistory : ((start source filename).performAll engine ops).history = later := hrun.history
  have hchanges : ((start source filename).performAll engine ops).changes =
      source.applied (source.committed engine ops) later := by
    rw [hrun.changes]
    exact Nat.zero_add _
  refine ⟨⟨hrun.commits.forall_filled, ?_, ?_, ?_, ?_, hrun.language, hrun.filename, ?_⟩, ?_, ?_⟩
  · rw [hhistory]
    exact hrun.commits.length_eq
  · intro k edits hk
    rw [hhistory]
    exact hrun.commits.entry hk
  · rw [hhistory]
    exact hrun.source
  · rw [hhistory]
    exact hchanges
  · intro hnone
    rw [hrun.source]
    exact hrun.commits.text_last (hchanges ▸ hnone)
  · exact ⟨further, hmore.history.symm⟩
  · rw [hmore.changes]
    exact Nat.le_add_right _ _

-- a batch of which every edit is dropped is an entry, and counts nothing
example :
    let d := (start ⟨{ name := "go", extensions := [".go"] }, "ab"⟩ none).performAll (Engine.ofTable [] [])
      [.commit [⟨9, 1, "x"⟩], .commit [], .commit [⟨0, 1, "c"⟩, ⟨0, 2, "d"⟩]]
    d.history.map (·.text) = ["ab", "cb"] ∧ d.changes = 1 := by
  decide +kernel

end Draft

end CodeSweep
