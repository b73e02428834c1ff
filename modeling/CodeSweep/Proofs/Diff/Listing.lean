import CodeSweep.Diff.Render
import CodeSweep.Proofs.Diff.Sides

/-! # The full listing of a comparison

    blocks ──gather──▶ pieces ──Piece.shown──▶ lines with their marks

Before anything is left out, a comparison lists every line of both texts: the lines it keeps or deletes
are the old ones, and the lines it keeps or inserts are the new ones (`marked_listing_old`,
`marked_listing_new`). A summary counts the marks of this listing (`deletions_eq`, `insertions_eq`), so
it tells of no change exactly where the texts are equal (`files_eq_zero_iff`). -/

namespace CodeSweep.Diff

variable {old new : String} {b : Block} {bs : List Block} {ps : List Piece} {ls ms : List DiffLine}

/-! ## Lines by mark -/

/-- The texts of the lines with one of the given marks, in order. -/
def marked (marks : List Mark) (ls : List DiffLine) : List String :=
  (ls.filter (·.mark ∈ marks)).map (·.text)

@[simp] theorem marked_nil (marks : List Mark) : marked marks [] = [] := rfl

@[simp] theorem marked_append (marks : List Mark) (ls ms : List DiffLine) :
    marked marks (ls ++ ms) = marked marks ls ++ marked marks ms := by
  simp [marked]

theorem marked_sublist (marks : List Mark) (h : ls.Sublist ms) :
    (marked marks ls).Sublist (marked marks ms) :=
  (h.filter _).map _

/-- All lines of the pieces, with none left out. -/
def listing (ps : List Piece) : List DiffLine := ps.flatMap Piece.shown

@[simp] theorem listing_nil : listing [] = [] := rfl

@[simp] theorem listing_cons (p : Piece) (ps : List Piece) : listing (p :: ps) = p.shown ++ listing ps :=
  rfl

@[simp] theorem listing_append (ps qs : List Piece) : listing (ps ++ qs) = listing ps ++ listing qs :=
  List.flatMap_append

theorem listing_flatten (hs : List (List Piece)) : listing hs.flatten = (hs.map listing).flatten := by
  induction hs with
  | nil => rfl
  | cons h hs ih => rw [List.flatten_cons, listing_append, ih, List.map_cons, List.flatten_cons]

/-- A listed line shows a line as it is. -/
theorem listed {l : DiffLine} (h : l ∈ listing ps) :
    l.mark ≠ .header ∧ l.unended = isOpenLine l.text := by
  obtain ⟨p, -, hl⟩ := List.mem_flatMap.mp h
  cases p with
  | same texts =>
      obtain ⟨text, -, rfl⟩ := List.mem_map.mp hl
      exact ⟨nofun, rfl⟩
  | change deleted inserted =>
      rcases List.mem_append.mp hl with hl | hl <;>
      · obtain ⟨text, -, rfl⟩ := List.mem_map.mp hl
        exact ⟨nofun, rfl⟩

theorem marked_map (marks : List Mark) (m : Mark) (texts : List String) :
    marked marks (texts.map fun l => ⟨m, l, isOpenLine l⟩) = if m ∈ marks then texts else [] := by
  split <;> simp [marked, List.filter_map, Function.comp_def, *]

theorem marked_same (marks : List Mark) (texts : List String) :
    marked marks (Piece.same texts).shown = if .kept ∈ marks then texts else [] :=
  marked_map marks .kept texts

theorem marked_change (marks : List Mark) (deleted inserted : List String) :
    marked marks (Piece.change deleted inserted).shown =
      (if .deleted ∈ marks then deleted else []) ++ if .inserted ∈ marks then inserted else [] := by
  rw [Piece.shown, marked_append, marked_map, marked_map]

/-! ## The listing spells out both texts -/

theorem marked_push_old (b : Block) (ps : List Piece) :
    marked [.deleted, .kept] (listing (Piece.push b ps)) =
      b.oldLines ++ marked [.deleted, .kept] (listing ps) := by
  unfold Piece.push
  split <;> simp [marked_same, marked_change]

theorem marked_push_new (b : Block) (ps : List Piece) :
    marked [.inserted, .kept] (listing (Piece.push b ps)) =
      b.newLines ++ marked [.inserted, .kept] (listing ps) := by
  unfold Piece.push
  split <;> simp [marked_same, marked_change]

/-- What one block adds to the lines with some marks, all blocks add one after the other. -/
theorem marked_gather {marks : List Mark} {side : Block → List String}
    (hpush : ∀ b ps, marked marks (listing (Piece.push b ps)) = side b ++ marked marks (listing ps))
    (bs : List Block) : marked marks (listing (gather bs)) = bs.flatMap side := by
  induction bs with
  | nil => rfl
  | cons b bs ih => rw [gather, List.foldr_cons, hpush, ← gather, ih, List.flatMap_cons]

/-- What a comparison keeps or deletes are the old lines. -/
theorem marked_listing_old (old new : String) :
    marked [.deleted, .kept] (listing (pieces old new)) = lines old := by
  rw [pieces, marked_gather marked_push_old, ← oldSide, (compact_sameSides _).old, (script_spells _ _).old]

/-- What a comparison keeps or inserts are the new lines. -/
theorem marked_listing_new (old new : String) :
    marked [.inserted, .kept] (listing (pieces old new)) = lines new := by
  rw [pieces, marked_gather marked_push_new, ← newSide, (compact_sameSides _).new, (script_spells _ _).new]

/-! ## What a summary counts -/

theorem marked_listing {marks : List Mark} {texts : Piece → List String}
    (hshown : ∀ p : Piece, marked marks p.shown = texts p) (ps : List Piece) :
    marked marks (listing ps) = ps.flatMap texts := by
  induction ps with
  | nil => rfl
  | cons p ps ih => rw [listing_cons, marked_append, hshown, ih, List.flatMap_cons]

theorem marked_deleted (ps : List Piece) : marked [.deleted] (listing ps) = ps.flatMap Piece.deleted := by
  apply marked_listing
  intro p
  cases p <;> simp [marked_same, marked_change, Piece.deleted]

theorem marked_inserted (ps : List Piece) : marked [.inserted] (listing ps) = ps.flatMap Piece.inserted := by
  apply marked_listing
  intro p
  cases p <;> simp [marked_same, marked_change, Piece.inserted]

theorem deletions_eq (old new : String) :
    (Summary.ofTexts old new).deletions = (marked [.deleted] (listing (pieces old new))).length := by
  rw [marked_deleted]
  rfl

theorem insertions_eq (old new : String) :
    (Summary.ofTexts old new).insertions = (marked [.inserted] (listing (pieces old new))).length := by
  rw [marked_inserted]
  rfl

theorem marked_cons (marks : List Mark) (l : DiffLine) (ls : List DiffLine) :
    marked marks (l :: ls) = if l.mark ∈ marks then l.text :: marked marks ls else marked marks ls := by
  rw [marked, List.filter_cons]
  split <;> simp_all [marked]

/-- Lines with one of two marks are those with the first and those with the second. -/
theorem length_marked_pair {m n : Mark} (h : m ≠ n) (ls : List DiffLine) :
    (marked [m, n] ls).length = (marked [m] ls).length + (marked [n] ls).length := by
  induction ls with
  | nil => rfl
  | cons l ls ih =>
      rw [marked_cons, marked_cons, marked_cons]
      by_cases hm : l.mark = m
      · simp [hm, h, ih]
        omega
      · by_cases hn : l.mark = n
        · simp [hn, h.symm, ih]
          omega
        · simp [hm, hn, ih]

theorem marked_eq_nil_iff {m : Mark} : marked [m] ls = [] ↔ ∀ l ∈ ls, l.mark ≠ m := by
  simp [marked]

theorem marked_congr {marks others : List Mark} (h : ∀ l ∈ ls, l.mark ∈ marks ↔ l.mark ∈ others) :
    marked marks ls = marked others ls := by
  have hfilter : ls.filter (·.mark ∈ marks) = ls.filter (·.mark ∈ others) :=
    List.filter_congr fun l hl => decide_eq_decide.mpr (h l hl)
  rw [marked, marked, hfilter]

/-! ## Texts and their lines -/

theorem flatten_lineChars (cs : List Char) : (lineChars cs).flatten = cs := by
  fun_induction lineChars cs with
  | case1 => rfl
  | case2 cs ih => rw [List.flatten_cons, ih]; rfl
  | case3 c cs _ _ ih => rw [List.flatten_cons, ih]; rfl
  | case4 c cs _ _ hnil ih =>
      rw [hnil] at ih
      rw [← ih]
      rfl
  | case5 c cs _ _ line rest hcons ih =>
      rw [hcons] at ih
      rw [← ih]
      rfl

/-- A text is its lines put together. -/
theorem join_lines (s : String) : String.join (lines s) = s := by
  rw [← String.toList_inj, String.toList_join, lines, List.flatMap_map]
  simp only [String.toList_ofList, List.flatMap_id']
  exact flatten_lineChars s.toList

/-! ## Equal texts -/

theorem script_self (ls : List String) : script ls ls = equalBlock ls := by
  have hinner : inner (commonStart ls ls) (endShared ls ls) ls = [] := by
    simp [inner, commonStart_self]
  have hstop : endShared ls ls = 0 := by
    simp [endShared, commonEnd, commonStart_self]
  rw [script]
  split
  next => simp [hstop, commonStart_self, equalBlock]
  next ho _ => cases hinner.symm.trans ho
  next hn => cases hinner.symm.trans hn
  next ho _ => cases hinner.symm.trans ho

theorem settle_of_none {movable : Block → Bool} {before after : List Block}
    (h : ∀ b ∈ after, movable b = false) : settle movable before after = before.reverse ++ after := by
  induction after generalizing before with
  | nil => simp [settle]
  | cons b after ih =>
      rw [settle, if_neg (by simp [h b]), ih fun c hc => h c (List.mem_cons_of_mem b hc)]
      simp

theorem compact_of_equal (h : ∀ b ∈ bs, ∃ ls, b = .equal ls) : compact bs = bs := by
  have hdelete : ∀ b ∈ bs, b.isDelete = false := by
    intro b hb
    obtain ⟨ls, rfl⟩ := h b hb
    rfl
  have hinsert : ∀ b ∈ bs, b.isInsert = false := by
    intro b hb
    obtain ⟨ls, rfl⟩ := h b hb
    rfl
  rw [compact, settle_of_none hdelete, List.reverse_nil, List.nil_append, settle_of_none hinsert]
  rfl

/-- A comparison of a text with itself keeps every line. -/
theorem pieces_self (s : String) : pieces s s = [] ∨ pieces s s = [.same (lines s)] := by
  have hcompact : compact (equalBlock (lines s)) = equalBlock (lines s) := by
    apply compact_of_equal
    intro b hb
    unfold equalBlock at hb
    split at hb
    next => cases hb
    next => exact ⟨_, List.mem_singleton.mp hb⟩
  rw [pieces, script_self, hcompact, equalBlock]
  split
  next => exact .inl rfl
  next => exact .inr rfl

/-- A summary tells of a changed file exactly where the texts differ. -/
theorem files_eq_zero_iff (old new : String) : (Summary.ofTexts old new).files = 0 ↔ old = new := by
  have hfiles : (Summary.ofTexts old new).files = 0 ↔
      (Summary.ofTexts old new).deletions = 0 ∧ (Summary.ofTexts old new).insertions = 0 := by
    simp only [Summary.ofTexts]
    split <;> omega
  rw [hfiles, deletions_eq, insertions_eq, List.length_eq_zero_iff, List.length_eq_zero_iff,
    marked_eq_nil_iff, marked_eq_nil_iff]
  constructor
  · rintro ⟨hdeleted, hinserted⟩
    -- all lines are kept, so they are the lines of either text
    have hlines : lines old = lines new := by
      rw [← marked_listing_old old new, ← marked_listing_new old new]
      apply marked_congr
      intro l hl
      simp [hdeleted l hl, hinserted l hl]
    rw [← join_lines old, hlines, join_lines]
  · rintro rfl
    have hkept : ∀ l ∈ listing (pieces old old), l.mark = .kept := by
      rcases pieces_self old with h | h <;> simp [h, Piece.shown]
    constructor
    all_goals
      intro l hl
      rw [hkept l hl]
      nofun

end CodeSweep.Diff
