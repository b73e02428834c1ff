import CodeSweep.Proofs.Diff.Listing

/-! # What hunks leave out

    pieces ──trimFront, trimBack──▶ pieces ──splitHunks──▶ hunks

Hunks cut equal runs down to the lines near a change. All that gets lost on the way are kept lines
(`hunks_abridge`): at the ends of a comparison, in the middle of a long equal run, and with a last hunk
that shows no change. -/

namespace CodeSweep.Diff

variable {shown full : List DiffLine} {ps started : List Piece} {texts kept : List String}

/-- `shown` is `full` with some kept lines left out. -/
structure Abridges (shown full : List DiffLine) : Prop where
  sublist : shown.Sublist full
  changes : shown.filter (·.mark ≠ .kept) = full.filter (·.mark ≠ .kept)

namespace Abridges

theorem refl (ls : List DiffLine) : Abridges ls ls := ⟨.refl ls, rfl⟩

theorem trans {full' : List DiffLine} (h : Abridges shown full) (h' : Abridges full full') :
    Abridges shown full' :=
  ⟨h.sublist.trans h'.sublist, h.changes.trans h'.changes⟩

theorem append {shown' full' : List DiffLine} (h : Abridges shown full) (h' : Abridges shown' full') :
    Abridges (shown ++ shown') (full ++ full') := by
  refine ⟨h.sublist.append h'.sublist, ?_⟩
  rw [List.filter_append, List.filter_append, h.changes, h'.changes]

/-- Of lines that are all kept, any may be left out. -/
theorem same (h : kept.Sublist texts) : Abridges (Piece.same kept).shown (Piece.same texts).shown := by
  have hnone : ∀ texts : List String, (Piece.same texts).shown.filter (·.mark ≠ .kept) = [] := by
    intro texts
    simp [Piece.shown]
  exact ⟨h.map _, (hnone kept).trans (hnone texts).symm⟩

theorem nil_same (texts : List String) : Abridges [] (Piece.same texts).shown :=
  same (List.nil_sublist texts)

/-- No line with another mark is left out. -/
theorem marked_eq {m : Mark} (h : Abridges shown full) (hm : m ≠ .kept) :
    marked [m] shown = marked [m] full := by
  have hfilter : ∀ ls : List DiffLine, marked [m] ls = marked [m] (ls.filter (·.mark ≠ .kept)) := by
    intro ls
    rw [marked, marked, List.filter_filter]
    congr 1
    apply List.filter_congr
    intro l _
    by_cases hl : l.mark = m <;> simp [hl, hm]
  rw [hfilter shown, h.changes, ← hfilter]

end Abridges

/-! ## The ends -/

theorem trimFront_abridges (ps : List Piece) : Abridges (listing (trimFront ps)) (listing ps) := by
  unfold trimFront
  split
  next ls ps => exact (Abridges.same (List.drop_sublist _ ls)).append (.refl _)
  next => exact .refl _

theorem trimBack_abridges (ps : List Piece) : Abridges (listing (trimBack ps)) (listing ps) := by
  unfold trimBack
  split
  next ls before h =>
    obtain rfl : ps = before.reverse ++ [.same ls] := by
      rw [← List.reverse_cons, ← h, List.reverse_reverse]
    rw [List.reverse_cons, listing_append, listing_append]
    exact (Abridges.refl _).append ((Abridges.same (List.take_sublist _ ls)).append (.refl []))
  next => exact .refl _

/-! ## Splitting -/

/-- What is shown around the middle of a long equal run. -/
theorem around_abridges {texts : List String} (h : 2 * context < texts.length) :
    Abridges ((Piece.same (texts.take context)).shown ++
      (Piece.same (texts.drop (texts.length - context))).shown) (Piece.same texts).shown := by
  have hsplit : (texts.take context ++ texts.drop (texts.length - context)).Sublist texts := by
    have hdrop := List.drop_sublist_drop_left texts (show context ≤ texts.length - context by omega)
    have := (List.Sublist.refl (texts.take context)).append hdrop
    rwa [List.take_append_drop] at this
  have := Abridges.same hsplit
  rwa [Piece.shown, List.map_append] at this

theorem quiet_abridges (h : isQuiet started = true) : Abridges [] (listing started.reverse) := by
  unfold isQuiet at h
  split at h
  next => exact .refl []
  next ls => exact (Abridges.nil_same ls).append (.refl [])
  next => cases h

theorem splitHunks_abridge (started ps : List Piece) :
    Abridges (listing (splitHunks started ps).flatten) (listing (started.reverse ++ ps)) := by
  fun_induction splitHunks started ps with
  | case1 started hquiet =>
      rw [List.append_nil]
      exact quiet_abridges hquiet
  | case2 started _ =>
      rw [List.append_nil, List.flatten_singleton]
      exact .refl _
  | case3 started ls ps hlong ih =>
      have hrun := (around_abridges hlong).append (.refl (listing ps))
      have hstarted := (Abridges.refl (listing started.reverse)).append hrun
      have hrest := (Abridges.refl (listing (.same (ls.take context) :: started).reverse)).append ih
      rw [List.flatten_cons, listing_append]
      refine hrest.trans ?_
      simpa using hstarted
  | case4 started ls ps _ ih => simpa using ih
  | case5 started ds is ps ih => simpa using ih

/-- Hunks leave out kept lines only. -/
theorem hunks_abridge (ps : List Piece) : Abridges (listing (hunks ps).flatten) (listing ps) :=
  (splitHunks_abridge [] _).trans ((trimBack_abridges _).trans (trimFront_abridges ps))

end CodeSweep.Diff
