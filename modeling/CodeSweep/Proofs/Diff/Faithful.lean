import Mathlib.Algebra.GroupWithZero.Nat
import CodeSweep.Diff.Results
import CodeSweep.Proofs.Diff.Hunks

/-! # What a diff tells

A rendered diff names its file and then shows lines, each behind the sign of its mark. Read back, the
stretches of its text between line breaks are the shown lines again (`stretches_body`), so the text tells
what the hunks tell: every change, in order, with some of the kept lines around it, and the summary counts
just these changes (`render_faithful`). -/

namespace CodeSweep.Diff

variable {cs rest stretch breaks : List Char} {l : DiffLine} {ls : List DiffLine}

/-! ## Reading lines back -/

/-- Whether a character ends a line. -/
def isBreak (c : Char) : Bool := c == '\n' || c == '\r'

/-- The stretches of a text between line breaks, without the empty ones. -/
def stretches (cs : List Char) : List (List Char) := (cs.splitOnP isBreak).filter (· ≠ [])

/-- A line without its ending. -/
def content (line : String) : List Char := line.toList.filter (!isBreak ·)

theorem isBreak_newline : ∀ c ∈ ['\n'], isBreak c = true := by simp [isBreak]

theorem stretches_nil : stretches [] = [] := rfl

theorem stretches_append_cons {c : Char} (hstretch : ∀ c ∈ stretch, isBreak c = false)
    (hc : isBreak c = true) :
    stretches (stretch ++ c :: rest) =
      if stretch = [] then stretches rest else stretch :: stretches rest := by
  rw [stretches, List.splitOnP_append_cons_of_forall_mem hstretch c hc, List.filter_cons]
  split <;> simp_all [stretches]

theorem stretches_breaks (hbreaks : ∀ c ∈ breaks, isBreak c = true) :
    stretches (breaks ++ rest) = stretches rest := by
  induction breaks with
  | nil => rfl
  | cons c breaks ih =>
      have hskip : stretches ([] ++ c :: (breaks ++ rest)) = stretches (breaks ++ rest) :=
        stretches_append_cons (List.forall_mem_nil _) (hbreaks c List.mem_cons_self)
      rw [List.cons_append, ← ih fun d hd => hbreaks d (List.mem_cons_of_mem c hd)]
      exact hskip

theorem stretches_append (hstretch : ∀ c ∈ stretch, isBreak c = false) (hne : stretch ≠ [])
    (hbreaks : ∀ c ∈ breaks, isBreak c = true) (hended : breaks ≠ []) :
    stretches (stretch ++ (breaks ++ rest)) = stretch :: stretches rest := by
  obtain ⟨c, breaks, rfl⟩ := List.exists_cons_of_ne_nil hended
  rw [List.cons_append, stretches_append_cons hstretch (hbreaks c List.mem_cons_self), if_neg hne,
    stretches_breaks fun d hd => hbreaks d (List.mem_cons_of_mem c hd)]

/-! ## Lines of a text -/

/-- Characters that break lines stand at the end of the line only. -/
def IsLine (line : List Char) : Prop :=
  ∃ stretch breaks, line = stretch ++ breaks ∧ (∀ c ∈ stretch, isBreak c = false) ∧
    ∀ c ∈ breaks, isBreak c = true

theorem isLine_of_mem_lineChars {line : List Char} (h : line ∈ lineChars cs) : IsLine line := by
  fun_induction lineChars cs generalizing line with
  | case1 => cases h
  | case2 cs ih =>
      rcases List.mem_cons.mp h with rfl | h
      · exact ⟨[], ['\r', '\n'], rfl, List.forall_mem_nil _, by simp [isBreak]⟩
      · exact ih h
  | case3 c cs _ hc ih =>
      rcases List.mem_cons.mp h with rfl | h
      · exact ⟨[], [c], rfl, List.forall_mem_nil _, by simpa [isBreak] using hc⟩
      · exact ih h
  | case4 c cs _ hc _ _ =>
      rw [List.mem_singleton] at h
      exact ⟨[c], [], by rw [h, List.append_nil], by simpa [isBreak] using hc, List.forall_mem_nil _⟩
  | case5 c cs _ hc first more hcons ih =>
      rw [hcons] at ih
      rcases List.mem_cons.mp h with rfl | h
      · obtain ⟨stretch, breaks, rfl, hstretch, hbreaks⟩ := ih List.mem_cons_self
        have hhead : isBreak c = false := by simpa [isBreak] using hc
        exact ⟨c :: stretch, breaks, rfl, List.forall_mem_cons.mpr ⟨hhead, hstretch⟩, hbreaks⟩
      · exact ih (List.mem_cons_of_mem _ h)

theorem isLine_of_mem_lines {s line : String} (h : line ∈ lines s) : IsLine line.toList := by
  obtain ⟨cs, hcs, rfl⟩ := List.mem_map.mp h
  rw [String.toList_ofList]
  exact isLine_of_mem_lineChars hcs

theorem isOpenLine_iff {line : String} :
    isOpenLine line = true ↔ ∀ c ∈ line.toList.getLast?, isBreak c = false := by
  rw [isOpenLine]
  split <;> simp_all [isBreak]

/-- A line is its content and its ending, which is missing exactly where one has to be added. -/
theorem exists_ending {line : String} (h : IsLine line.toList) :
    ∃ breaks, line.toList = content line ++ breaks ∧ (∀ c ∈ content line, isBreak c = false) ∧
      (∀ c ∈ breaks, isBreak c = true) ∧ (isOpenLine line = true ↔ breaks = []) := by
  obtain ⟨stretch, breaks, hline, hstretch, hbreaks⟩ := h
  have hkeep : stretch.filter (!isBreak ·) = stretch :=
    List.filter_eq_self.mpr fun c hc => by simp [hstretch c hc]
  have hdrop : breaks.filter (!isBreak ·) = [] :=
    List.filter_eq_nil_iff.mpr fun c hc => by simp [hbreaks c hc]
  have hcontent : content line = stretch := by
    rw [content, hline, List.filter_append, hkeep, hdrop, List.append_nil]
  refine ⟨breaks, by rw [hcontent, hline], by rwa [hcontent], hbreaks, ?_⟩
  rw [isOpenLine_iff, hline, List.getLast?_append]
  constructor
  · intro hopen
    cases hlast : breaks.getLast? with
    | none => exact List.getLast?_eq_none_iff.mp hlast
    | some c =>
        have hc := hbreaks c (List.mem_of_getLast? hlast)
        rw [hlast, Option.some_or] at hopen
        rw [hopen c rfl] at hc
        cases hc
  · rintro rfl c hc
    exact hstretch c (List.mem_of_getLast? hc)

/-! ## Shown lines -/

/-- A line of a diff that shows a line of a text. -/
structure DiffLine.Shows (l : DiffLine) : Prop where
  mark : l.mark ≠ .header
  line : IsLine l.text.toList
  unended : l.unended = isOpenLine l.text

/-- How a shown line reads: the sign of its mark and its content. -/
def DiffLine.reading (l : DiffLine) : List Char := l.mark.sign.toList ++ content l.text

theorem toList_render_false (l : DiffLine) : (l.render false).toList =
    l.mark.sign.toList ++ (l.text.toList ++ if l.unended then ['\n'] else []) := by
  rw [DiffLine.render]
  split <;> simp [String.toList_append]

theorem stretches_render (h : l.Shows) (rest : List Char) :
    stretches ((l.render false).toList ++ rest) = l.reading :: stretches rest := by
  obtain ⟨breaks, hline, hcontent, hbreaks, hopen⟩ := exists_ending h.line
  have hsign : (∀ c ∈ l.mark.sign.toList, isBreak c = false) ∧ l.mark.sign.toList ≠ [] := by
    cases hmark : l.mark with
    | header => exact absurd hmark h.mark
    | deleted | inserted | kept => simp [Mark.sign, isBreak]
  have hreading : ∀ c ∈ l.reading, isBreak c = false :=
    List.forall_mem_append.mpr ⟨hsign.1, hcontent⟩
  have hne : l.reading ≠ [] := List.append_ne_nil_of_left_ne_nil hsign.2 _
  have hended : ∃ ending, l.text.toList ++ (if l.unended then ['\n'] else []) = content l.text ++ ending ∧
      (∀ c ∈ ending, isBreak c = true) ∧ ending ≠ [] := by
    rw [h.unended, hline]
    split
    next hnone => exact ⟨['\n'], by rw [hopen.mp hnone, List.append_nil], isBreak_newline, by simp⟩
    next hsome => exact ⟨breaks, by rw [List.append_nil], hbreaks, mt hopen.mpr hsome⟩
  obtain ⟨ending, hending, hall, hending_ne⟩ := hended
  calc stretches ((l.render false).toList ++ rest)
      = stretches (l.reading ++ (ending ++ rest)) := by
        rw [toList_render_false, hending, DiffLine.reading]
        simp only [List.append_assoc]
    _ = l.reading :: stretches rest := stretches_append hreading hne hall hending_ne

theorem toList_renderLines_cons (color : Bool) (l : DiffLine) (ls : List DiffLine) :
    (renderLines color (l :: ls)).toList = (l.render color).toList ++ (renderLines color ls).toList := by
  rw [renderLines, List.map_cons, String.join_cons, String.toList_append]
  rfl

theorem stretches_renderLines (h : ∀ l ∈ ls, l.Shows) (rest : List Char) :
    stretches ((renderLines false ls).toList ++ rest) = ls.map DiffLine.reading ++ stretches rest := by
  induction ls with
  | nil => rfl
  | cons l ls ih =>
      rw [List.forall_mem_cons] at h
      rw [toList_renderLines_cons, List.append_assoc, stretches_render h.1, ih h.2, List.map_cons,
        List.cons_append]

theorem stretches_intercalate {hunks : List (List DiffLine)} (h : ∀ l ∈ hunks.flatten, l.Shows) :
    stretches ("\n".intercalate (hunks.map (renderLines false))).toList =
      hunks.flatten.map DiffLine.reading := by
  induction hunks with
  | nil => rfl
  | cons hunk hunks ih =>
      rw [List.flatten_cons, List.forall_mem_append] at h
      rw [List.flatten_cons, List.map_append]
      cases hunks with
      | nil => simpa [stretches_nil] using stretches_renderLines h.1 []
      | cons next more =>
          have htoList : ("\n".intercalate ((hunk :: next :: more).map (renderLines false))).toList =
              (renderLines false hunk).toList ++
                (['\n'] ++ ("\n".intercalate ((next :: more).map (renderLines false))).toList) := by
            rw [List.map_cons, List.map_cons, String.intercalate_cons_cons, String.toList_append,
              String.toList_append, List.append_assoc]
            rfl
          rw [htoList, stretches_renderLines h.1, stretches_breaks isBreak_newline, ih h.2]

/-! ## The diff of two texts -/

/-- The lines of each hunk of the diff of two texts. -/
def hunkLines (old new : String) : List (List DiffLine) := (hunks (pieces old new)).map listing

theorem hunkLines_abridge (old new : String) :
    Abridges (hunkLines old new).flatten (listing (pieces old new)) := by
  rw [hunkLines, ← listing_flatten]
  exact hunks_abridge _

theorem render_eq (color : Bool) (old new : String) (path : Path) : render color old new path =
    renderLines color (headers path) ++ "\n".intercalate ((hunkLines old new).map (renderLines color)) := by
  rw [render, hunkLines, List.map_map]
  rfl

theorem renderLines_headers (path : Path) :
    renderLines false (headers path) = "--- a/" ++ path.text ++ "\n+++ b/" ++ path.text ++ "\n" := by
  rw [← String.toList_inj]
  simp [renderLines, headers, String.toList_append, toList_render_false, Mark.sign]

/-- A line of a comparison is a line of the old text or of the new one. -/
theorem text_mem_of_mem_listing {old new : String} (h : l ∈ listing (pieces old new)) :
    l.text ∈ lines old ∨ l.text ∈ lines new := by
  rw [← marked_listing_old old new, ← marked_listing_new old new]
  have hmem : ∀ marks : List Mark, l.mark ∈ marks → l.text ∈ marked marks (listing (pieces old new)) :=
    fun marks hmark => List.mem_map_of_mem (List.mem_filter.mpr ⟨h, decide_eq_true hmark⟩)
  cases hmark : l.mark with
  | header => exact absurd hmark (listed h).1
  | deleted => exact .inl (hmem _ (by simp [hmark]))
  | inserted => exact .inr (hmem _ (by simp [hmark]))
  | kept => exact .inl (hmem _ (by simp [hmark]))

theorem shows_of_mem_listing {old new : String} (h : l ∈ listing (pieces old new)) : l.Shows := by
  obtain ⟨hmark, hunended⟩ := listed h
  refine ⟨hmark, ?_, hunended⟩
  rcases text_mem_of_mem_listing h with h | h
  · exact isLine_of_mem_lines h
  · exact isLine_of_mem_lines h

/-- The text of the hunks reads as the lines that they show. -/
theorem stretches_body (old new : String) :
    stretches ("\n".intercalate ((hunkLines old new).map (renderLines false))).toList =
      (hunkLines old new).flatten.map DiffLine.reading := by
  apply stretches_intercalate
  intro l hl
  exact shows_of_mem_listing ((hunkLines_abridge old new).sublist.subset hl)

/-! ## Summaries -/

/-- The sum of a count over the changed files. -/
def totalOf (count : Summary → Nat) (done : List FileDone) : Nat :=
  ((done.filter (·.changed)).map fun r => count (.ofTexts r.old r.content)).sum

theorem ofResults_eq (done : List FileDone) : Summary.ofResults done =
    ⟨totalOf Summary.files done, totalOf Summary.insertions done, totalOf Summary.deletions done⟩ := by
  have hfold : ∀ s : Summary,
      (done.filter (·.changed)).foldl (fun s r => s.add (.ofTexts r.old r.content)) s =
        s.add ⟨totalOf Summary.files done, totalOf Summary.insertions done,
          totalOf Summary.deletions done⟩ := by
    simp only [totalOf]
    induction done.filter (·.changed) with
    | nil => exact fun _ => rfl
    | cons r done ih =>
        intro s
        rw [List.foldl_cons, ih]
        simp [Summary.add, Nat.add_assoc]
  rw [Summary.ofResults, hfold]
  simp [Summary.add]

/-- What the hunks of a diff show of the change from one text to the other, and what its summary counts. -/
structure Faithful (old new : String) (path : Path) (hunks : List (List DiffLine)) (summary : Summary) :
    Prop where
  /-- The diff is its header and the lines of the hunks. -/
  rendered : ∀ color, render color old new path =
    renderLines color (headers path) ++ "\n".intercalate (hunks.map (renderLines color))
  /-- Read after the header, its text gives these lines back, each behind its sign. -/
  reads : ∃ body,
    render false old new path = "--- a/" ++ path.text ++ "\n+++ b/" ++ path.text ++ "\n" ++ body ∧
    stretches body.toList = hunks.flatten.map DiffLine.reading
  /-- Changed lines stand in the order of the comparison, and none is left out. -/
  changes : hunks.flatten.filter (·.mark ≠ .kept) = (listing (pieces old new)).filter (·.mark ≠ .kept)
  deleted : marked [.deleted] hunks.flatten = (pieces old new).flatMap Piece.deleted
  inserted : marked [.inserted] hunks.flatten = (pieces old new).flatMap Piece.inserted
  deletions : summary.deletions = (marked [.deleted] hunks.flatten).length
  insertions : summary.insertions = (marked [.inserted] hunks.flatten).length
  fromOld : (marked [.deleted, .kept] hunks.flatten).Sublist (lines old)
  fromNew : (marked [.inserted, .kept] hunks.flatten).Sublist (lines new)
  /-- Without what is deleted and what is inserted, both texts have as many lines. -/
  balance : summary.deletions ≤ (lines old).length ∧ summary.insertions ≤ (lines new).length ∧
    (lines old).length - summary.deletions = (lines new).length - summary.insertions
  files : summary.files = 0 ↔ old = new

/-- **A diff and its summary tell the same, and they tell what changed.** For every two texts and every
path, the lines rendered as deleted and inserted are those that the summary counts, in order; what is shown
of either text is a part of it; and no changed file is counted exactly where the texts are equal. Over
several results a summary is the sum over the changed ones. -/
theorem render_faithful (old new : String) (path : Path) (done : List FileDone) :
    Faithful old new path (hunkLines old new) (Summary.ofTexts old new) ∧
      Summary.ofResults done =
        ⟨totalOf Summary.files done, totalOf Summary.insertions done, totalOf Summary.deletions done⟩ := by
  have habridge := hunkLines_abridge old new
  have hdeleted := habridge.marked_eq (show Mark.deleted ≠ .kept by decide)
  have hinserted := habridge.marked_eq (show Mark.inserted ≠ .kept by decide)
  have hdeletions := deletions_eq old new
  have hinsertions := insertions_eq old new
  have hold := congrArg List.length (marked_listing_old old new)
  have hnew := congrArg List.length (marked_listing_new old new)
  rw [length_marked_pair (by decide), ← hdeletions] at hold
  rw [length_marked_pair (by decide), ← hinsertions] at hnew
  refine ⟨?_, ofResults_eq done⟩
  exact {
    rendered := fun color => render_eq color old new path
    reads := ⟨_, by rw [render_eq, renderLines_headers], stretches_body old new⟩
    changes := habridge.changes
    deleted := hdeleted.trans (marked_deleted _)
    inserted := hinserted.trans (marked_inserted _)
    deletions := by rw [hdeletions, hdeleted]
    insertions := by rw [hinsertions, hinserted]
    fromOld := marked_listing_old old new ▸ marked_sublist _ habridge.sublist
    fromNew := marked_listing_new old new ▸ marked_sublist _ habridge.sublist
    balance := by omega
    files := files_eq_zero_iff old new }

end CodeSweep.Diff
