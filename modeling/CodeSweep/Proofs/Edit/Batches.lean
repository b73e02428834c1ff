import CodeSweep.Proofs.Edit.Splicing

/-! # Batches of edits

A batch is a set: what comes of it depends neither on the order in which it lists its edits nor on how
often it lists them (`commit_of_same_members`), since a strictly increasing list is known by its members.

Edits whose spans are apart and not empty are all taken (`commit_of_leftToRight`), so that their spans are
replaced side by side. Those that write what stands in their spans already may as well be left out
(`patched_filter`): they do not show in the text. -/

namespace CodeSweep.Edit

variable {source : String} {cursor : Nat} {edits ordered taken : List Edit}

/-! ## The members of a batch -/

/-- **A batch is a set of edits.** Two batches with the same members, in any order and any number of
times, make the same text of a source and have the same number of edits applied. -/
theorem commit_of_same_members (source : String) (edits others : List Edit)
    (h : ∀ e, e ∈ edits ↔ e ∈ others) : commit source edits = commit source others := by
  have hordered : Ordered.ofList order edits = Ordered.ofList order others := Ordered.ofList_congr h
  rw [commit, commit, hordered]

/-- Two texts for one span, two insertions at its end and one at its beginning. -/
def crowd : List Edit :=
  [⟨3, 0, "!"⟩, ⟨0, 3, "two"⟩, ⟨0, 0, ">"⟩, ⟨0, 3, "ten"⟩, ⟨3, 0, ","⟩]

/-- The same edits, some of them twice. -/
def crowdAgain : List Edit :=
  [⟨0, 3, "two"⟩, ⟨3, 0, ","⟩, ⟨0, 3, "ten"⟩, ⟨3, 0, ","⟩, ⟨3, 0, "!"⟩, ⟨0, 0, ">"⟩, ⟨0, 3, "two"⟩]

theorem commit_of_same_members_crowd :
    (∀ e, e ∈ crowd ↔ e ∈ crowdAgain) ∧
      commit "one two" crowd = commit "one two" crowdAgain ∧
      commit "one two" crowdAgain = ⟨">ten!, two", 4⟩ := by
  have hleft : crowd ⊆ crowdAgain := by decide
  have hright : crowdAgain ⊆ crowd := by decide
  have hsame : ∀ e, e ∈ crowd ↔ e ∈ crowdAgain := fun e => ⟨fun h => hleft h, fun h => hright h⟩
  exact ⟨hsame, commit_of_same_members "one two" crowd crowdAgain hsame, by decide +kernel⟩

/-! ## Edits side by side -/

/-- Edits from left to right: their spans are spans of the text, hold something and are apart. -/
structure LeftToRight (source : String) (edits : List Edit) : Prop where
  fits : ∀ e ∈ edits, e.Fits source
  filled : ∀ e ∈ edits, e.position < e.stop
  apart : edits.Pairwise fun a b => a.stop ≤ b.position

namespace LeftToRight

theorem sublist (h : LeftToRight source ordered) (hsub : edits.Sublist ordered) :
    LeftToRight source edits where
  fits := fun e he => h.fits e (hsub.mem he)
  filled := fun e he => h.filled e (hsub.mem he)
  apart := h.apart.sublist hsub

theorem pairwise_precedes (h : LeftToRight source edits) : edits.Pairwise Precedes := by
  apply h.apart.imp_of_mem
  intro a b ha _ hapart
  exact .inl (Nat.lt_of_lt_of_le (h.filled a ha) hapart)

end LeftToRight

/-- Of edits that fit, are apart and do not begin before the cursor, all are taken. -/
theorem Takes.eq_of_apart (h : Takes source cursor edits taken) (hfits : ∀ e ∈ edits, e.Fits source)
    (hfrom : ∀ e ∈ edits, cursor ≤ e.position) (hapart : edits.Pairwise fun a b => a.stop ≤ b.position) :
    taken = edits := by
  induction h with
  | nil => rfl
  | @take cursor e edits taken _ _ _ ih =>
      obtain ⟨hfirst, hrest⟩ := List.pairwise_cons.mp hapart
      rw [ih (fun a ha => hfits a (List.mem_cons_of_mem e ha)) hfirst hrest]
  | @pass cursor e edits taken refused _ _ =>
      exact absurd ⟨hfrom e List.mem_cons_self, hfits e List.mem_cons_self⟩ refused

theorem LeftToRight.ofList_eq (h : LeftToRight source ordered) (hmem : ∀ e, e ∈ edits ↔ e ∈ ordered) :
    Ordered.ofList order edits = ordered := by
  apply Ordered.ofList_eq _ hmem
  exact h.pairwise_precedes.imp fun hlt => order_eq_lt_iff.mpr hlt

/-- Edits from left to right replace all their spans. -/
theorem commit_of_leftToRight (h : LeftToRight source edits) :
    (commit source edits).applied = edits.length ∧
      (commit source edits).text.toByteArray = patched source.toByteArray 0 edits := by
  obtain ⟨taken, htakes, happlied, hbytes⟩ := splice_takes (remains_start source) edits
  obtain rfl : taken = edits := htakes.eq_of_apart h.fits (fun e _ => Nat.zero_le e.position) h.apart
  rw [commit, h.ofList_eq fun _ => Iff.rfl]
  exact ⟨happlied, String.toByteArray_ofList.trans hbytes⟩

/-- Bytes that no edit begins in are kept. -/
theorem extract_append_patched {bytes : ByteArray} {next : Nat} (hle : cursor ≤ next)
    (hnext : next ≤ bytes.size) (hfrom : ∀ e ∈ edits, next ≤ e.position) :
    bytes.extract cursor next ++ patched bytes next edits = patched bytes cursor edits := by
  cases edits with
  | nil =>
      rw [patched, patched, ByteArray.extract_append_extract, Nat.min_eq_left hle, Nat.max_eq_right hnext]
  | cons e edits =>
      rw [patched, patched, ← ByteArray.append_assoc, ← ByteArray.append_assoc,
        ByteArray.extract_append_extract, Nat.min_eq_left hle,
        Nat.max_eq_right (hfrom e List.mem_cons_self)]

/-- Edits that write what stands in their spans already do not show in the text. -/
theorem patched_filter {α : Type} {give : α → Edit} {keep : α → Bool} {items : List α}
    (h : LeftToRight source (items.map give)) (hfrom : ∀ x ∈ items, cursor ≤ (give x).position)
    (hkeep : ∀ x ∈ items, keep x = false →
      (give x).text.toByteArray = source.toByteArray.extract (give x).position (give x).stop) :
    patched source.toByteArray cursor ((items.filter keep).map give) =
      patched source.toByteArray cursor (items.map give) := by
  induction items generalizing cursor with
  | nil => rfl
  | cons x items ih =>
      rw [List.map_cons] at h
      obtain ⟨hafter, -⟩ := List.pairwise_cons.mp h.apart
      have hrest : LeftToRight source (items.map give) := h.sublist (List.sublist_cons_self _ _)
      have hlater := fun y hy => hkeep y (List.mem_cons_of_mem x hy)
      cases hx : keep x with
      | true =>
          have hnext : ∀ y ∈ items, (give x).stop ≤ (give y).position :=
            fun y hy => hafter (give y) (List.mem_map_of_mem hy)
          rw [List.filter_cons_of_pos hx, List.map_cons, List.map_cons, patched, patched,
            ih hrest hnext hlater]
      | false =>
          have hreached : cursor ≤ (give x).position := hfrom x List.mem_cons_self
          have hstop : (give x).position ≤ (give x).stop := Nat.le_add_right _ _
          have hend : (give x).stop ≤ source.toByteArray.size := by
            rw [String.size_toByteArray]
            exact (h.fits _ List.mem_cons_self).stop_valid.le_utf8ByteSize
          rw [List.filter_cons_of_neg (by simp [hx]),
            ih hrest (fun y hy => hfrom y (List.mem_cons_of_mem x hy)) hlater, List.map_cons, patched,
            hkeep x List.mem_cons_self hx]
          -- what stands up to the span and what is written there make up one stretch of the source
          rw [ByteArray.extract_append_extract, Nat.min_eq_left hreached, Nat.max_eq_right hstop,
            extract_append_patched (Nat.le_trans hreached hstop) hend hafter]

end CodeSweep.Edit
