import CodeSweep.Proofs.Stage.Agreement

/-! # Stages compose

A list of stages may be cut in two: running all of them is running the first part, parsing the text that it
leaves and running the second part on it (`runStages_composes`). The loop itself does not parse between
the parts. It goes on with the source it has, which after a stage without edits is an old one, and a batch
of edits may well leave the text as it was. What makes up for the difference is that a source which was
parsed is what parsing its text gives (`Parsed`), and that every stage keeps to this
(`Parsed.of_advance`, `Parsed.of_runStages`). -/

namespace CodeSweep.Source

variable {engine : Engine} {s next : Source}

theorem runStages_append (s : Source) (first second : List Stage) :
    s.runStages engine (first ++ second) =
      (s.runStages engine first).bind fun next => next.runStages engine second := by
  induction first generalizing s with
  | nil => rfl
  | cons st rest ih =>
      rw [List.cons_append, runStages_cons, runStages_cons]
      cases st.edits engine s with
      | error fault => rfl
      | ok edits =>
          show (s.advance engine edits).bind _ = ((s.advance engine edits).bind _).bind _
          cases s.advance engine edits with
          | error fault => rfl
          | ok next => exact ih next

/-! ## Parsed sources -/

/-- A source is what parsing its text gives. -/
def Parsed (engine : Engine) (s : Source) : Prop := s.reparse engine s.text = .ok s

theorem parsed_of_ofText {language : Language} {text : String}
    (h : ofText engine language text = .ok s) : Parsed engine s ∧ s.language = language := by
  obtain rfl : s = { language, text } := by
    unfold ofText at h
    split at h
    next => cases h
    next => exact (Except.ok.inj h).symm
  exact ⟨h, rfl⟩

namespace Parsed

/-- A batch of edits leaves a parsed source in the same language. -/
theorem of_advance {edits : List Edit} (h : Parsed engine s) (hadvance : s.advance engine edits = .ok next) :
    Parsed engine next ∧ next.language = s.language := by
  unfold advance at hadvance
  split at hadvance
  next =>
    cases hadvance
    exact ⟨h, rfl⟩
  next => exact parsed_of_ofText hadvance

/-- So do stages, one after the other. -/
theorem of_runStages {stages : List Stage} (h : Parsed engine s)
    (hrun : s.runStages engine stages = .ok next) : Parsed engine next ∧ next.language = s.language := by
  induction stages generalizing s with
  | nil =>
      cases hrun
      exact ⟨h, rfl⟩
  | cons st rest ih =>
      rw [runStages_cons] at hrun
      cases hedits : st.edits engine s with
      | error fault =>
          rw [hedits] at hrun
          cases hrun
      | ok edits =>
          rw [hedits] at hrun
          cases hadvance : s.advance engine edits with
          | error fault =>
              simp only [Except.bind, hadvance] at hrun
              cases hrun
          | ok middle =>
              simp only [Except.bind, hadvance] at hrun
              obtain ⟨hmiddle, hlanguage⟩ := h.of_advance hadvance
              obtain ⟨hnext, hsame⟩ := ih hmiddle hrun
              exact ⟨hnext, hsame.trans hlanguage⟩

end Parsed

/-- **Stages compose.** On a source that was parsed, two lists of stages one after the other come to the
same as the first list, and then the second on its text, parsed anew in the same language: the same text
or the same fault, also where texts cannot be parsed. -/
theorem runStages_composes (engine : Engine) (language : Language) (text : String) (source : Source)
    (hparsed : ofText engine language text = .ok source) (first second : List Stage) :
    (source.runStages engine (first ++ second)).map (·.text) =
      ((source.runStages engine first).map (·.text)).bind fun between =>
        (ofText engine language between).bind fun next =>
          (next.runStages engine second).map (·.text) := by
  obtain ⟨hsource, hsame⟩ := parsed_of_ofText hparsed
  rw [runStages_append]
  cases hfirst : source.runStages engine first with
  | error fault => rfl
  | ok next =>
      obtain ⟨hnext, hlanguage⟩ := hsource.of_runStages hfirst
      have hagain : ofText engine language next.text = .ok next := by
        rw [← hsame, ← hlanguage]
        exact hnext
      show (next.runStages engine second).map _ = (ofText engine language next.text).bind _
      rw [hagain]
      rfl

/-- An engine for which a query finds the text that it is. It cannot parse a question mark. -/
def verbatim : Engine where
  parse _ text := if text = "?" then .error "no text" else .ok ()
  compile _ query := .ok [query]
  captures _ query text :=
    if query = text then
      [{ name := query, node := { kind := "text", start := 0, stop := text.utf8ByteSize, named := true } }]
    else []

/-- The stage that turns one text into another. -/
def turning (old new : String) : Stage := ⟨{ query := old }, .literal new⟩

/-- The second part goes on with what the first one left. Its last stage finds nothing, or is not come to
where the text before it cannot be parsed. -/
theorem runStages_composes_verbatim :
    ofText verbatim default "a" = .ok ⟨default, "a"⟩ ∧
      (((runStages verbatim ⟨default, "a"⟩ [turning "a" "b"]).map (·.text)).bind fun between =>
        (ofText verbatim default between).bind fun next =>
          (next.runStages verbatim [turning "b" "c", turning "a" "d"]).map (·.text)) = .ok "c" ∧
      (((runStages verbatim ⟨default, "a"⟩ [turning "a" "b"]).map (·.text)).bind fun between =>
        (ofText verbatim default between).bind fun next =>
          (next.runStages verbatim [turning "b" "?", turning "a" "d"]).map (·.text)) =
        .error (.parse (default : Language).name "no text") := by
  have hparsed : ofText verbatim default "a" = .ok ⟨default, "a"⟩ := rfl
  refine ⟨hparsed, ?_, ?_⟩
  · rw [← runStages_composes verbatim default "a" _ hparsed]
    rfl
  · rw [← runStages_composes verbatim default "a" _ hparsed]
    rfl

end CodeSweep.Source
