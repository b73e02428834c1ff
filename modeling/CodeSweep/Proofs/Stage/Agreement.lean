import CodeSweep.Stage

/-! # Two ways to run stages

Stages are run on a source alone (`Source.runStages`) or on a draft that keeps the record of each batch
of edits (`Draft.runStages`). Both loops make the same step on the source, `Source.advance`, whatever
they keep beside it:

    Draft   ──commit───▶  Draft
      │ source              │ source
      ▼                     ▼
    Source  ──advance──▶  Source

So they end in the same text or in the same fault (`runStages_agree`), for every tree engine: texts that
cannot be parsed anew after a stage and queries that do not compile are among its answers. -/

namespace CodeSweep

variable {engine : Engine}

namespace Source

/-- The source after a batch of edits: an empty batch leaves it, any other is committed and the text
parsed anew. -/
def advance (engine : Engine) (s : Source) (edits : List Edit) : Except Fault Source :=
  if edits.isEmpty then .ok s else s.reparse engine (Edit.commit s.text edits).text

theorem runStages_cons (s : Source) (st : Stage) (rest : List Stage) :
    s.runStages engine (st :: rest) =
      (st.edits engine s).bind fun edits =>
        (s.advance engine edits).bind fun next => next.runStages engine rest := by
  rw [runStages]
  cases st.edits engine s with
  | error fault => rfl
  | ok edits =>
      cases edits with
      -- the stage made no edit, and the loop goes on with the source it has
      | nil => rfl
      | cons e es =>
          dsimp only [Except.bind, advance, List.isEmpty_cons, Bool.false_eq_true, if_false]
          cases s.reparse engine (Edit.commit s.text (e :: es)).text <;> rfl

end Source

namespace Draft

theorem runStages_cons (d : Draft) (st : Stage) (rest : List Stage) :
    d.runStages engine (st :: rest) =
      (st.edits engine d.source).bind fun edits =>
        (d.commit engine edits).bind fun next => next.runStages engine rest := by
  rw [runStages]
  cases st.edits engine d.source with
  | error fault => rfl
  | ok edits =>
      dsimp only [Except.bind]
      cases d.commit engine edits <;> rfl

/-- What a committed batch does to the source does not depend on the record. -/
theorem commit_source (d : Draft) (edits : List Edit) :
    (d.commit engine edits).map (·.source) = d.source.advance engine edits := by
  unfold commit Source.advance
  split
  · rfl
  · dsimp only
    cases d.source.reparse engine (Edit.commit d.source.text edits).text <;> rfl

/-- The source of a draft goes the way of the source alone. -/
theorem runStages_source (d : Draft) (stages : List Stage) :
    (d.runStages engine stages).map (·.source) = d.source.runStages engine stages := by
  induction stages generalizing d with
  | nil => rfl
  | cons st rest ih =>
      rw [runStages_cons, Source.runStages_cons]
      cases st.edits engine d.source with
      | error fault => rfl
      | ok edits =>
          show ((d.commit engine edits).bind _).map _ = (d.source.advance engine edits).bind _
          rw [← commit_source]
          cases d.commit engine edits with
          | error fault => rfl
          | ok next => exact ih next

end Draft

/-- **Both ways to run stages agree.** Run on a source alone or on a draft of it, stages give the same
text or the same fault. -/
theorem runStages_agree (engine : Engine) (source : Source) (filename : Option Path)
    (stages : List Stage) :
    (∀ text, (source.runStages engine stages).map (·.text) = .ok text ↔
      ∃ draft, (Draft.start source filename).runStages engine stages = .ok draft ∧
        draft.source.text = text) ∧
    ∀ fault, (source.runStages engine stages).map (·.text) = .error fault ↔
      (Draft.start source filename).runStages engine stages = .error fault := by
  have hsource : ((Draft.start source filename).runStages engine stages).map (·.source) =
      source.runStages engine stages :=
    (Draft.start source filename).runStages_source stages
  rw [← hsource]
  cases (Draft.start source filename).runStages engine stages with
  | error e => simp [Except.map]
  | ok draft => simp [Except.map]

end CodeSweep
