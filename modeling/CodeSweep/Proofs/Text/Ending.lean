import CodeSweep.Text.Blank
import CodeSweep.Text.Search
import Mathlib.Data.List.DropRight

/-! # How texts begin and end

What is taken off the end of a text, or kept of it, is told by how the text is put together: the last
piece after a separator (`getLast?_pieces_iff`), what stands around the last occurrence of a character
(`splitLast?_eq_some_iff`), and what is left without a run of characters at the end
(`dropTrailing_eq_iff`) or at the beginning (`dropLeading_append_cons`). -/

namespace CodeSweep.Text

variable {sep : Char} {cs before after last front : List Char} {p : Char → Bool}

/-! ## The last piece -/

/-- Text that ends a text goes back to where the last separator is, or to the beginning. -/
def StartsAfter (sep : Char) (before : List Char) : Prop := before = [] ∨ before.getLast? = some sep

theorem exists_last (sep : Char) (cs : List Char) :
    ∃ before last, cs = before ++ last ∧ sep ∉ last ∧ StartsAfter sep before := by
  induction cs with
  | nil => exact ⟨[], [], rfl, List.not_mem_nil, .inl rfl⟩
  | cons c cs ih =>
      obtain ⟨before, last, rfl, hlast, hbefore⟩ := ih
      rcases hbefore with rfl | hbefore
      · by_cases hc : c = sep
        · exact ⟨[c], last, rfl, hlast, .inr (by rw [hc]; rfl)⟩
        · refine ⟨[], c :: last, rfl, ?_, .inl rfl⟩
          intro hmem
          rcases List.mem_cons.mp hmem with heq | hmem
          · exact hc heq.symm
          · exact hlast hmem
      · refine ⟨c :: before, last, rfl, hlast, .inr ?_⟩
        rw [List.getLast?_cons, hbefore, Option.getD_some]

theorem getLast?_pieces_append (hlast : sep ∉ last) (hbefore : StartsAfter sep before) :
    (pieces sep (before ++ last)).getLast? = some last := by
  rcases hbefore with rfl | hbefore
  · rw [List.nil_append, pieces_of_not_mem hlast]
    rfl
  · obtain ⟨init, rfl⟩ := List.getLast?_eq_some_iff.mp hbefore
    rw [List.append_assoc, List.singleton_append, pieces_append, pieces_of_not_mem hlast,
      List.getLast?_append]
    rfl

theorem getLast?_pieces_iff : (pieces sep cs).getLast? = some last ↔
    sep ∉ last ∧ ∃ before, cs = before ++ last ∧ StartsAfter sep before := by
  constructor
  · intro h
    obtain ⟨before, found, rfl, hfound, hbefore⟩ := exists_last sep cs
    rw [getLast?_pieces_append hfound hbefore] at h
    cases h
    exact ⟨hfound, before, rfl, hbefore⟩
  · rintro ⟨hlast, before, rfl, hbefore⟩
    exact getLast?_pieces_append hlast hbefore

/-! ## The last occurrence of a character -/

theorem splitLast?_eq_none_iff : splitLast? sep cs = none ↔ sep ∉ cs := by
  induction cs with
  | nil => simp [splitLast?]
  | cons c cs ih =>
      rw [splitLast?]
      split
      next before after hsplit =>
        rw [hsplit] at ih
        have hmem : sep ∈ cs := by simpa using ih
        simp [hmem]
      next hsplit =>
        have hcs : sep ∉ cs := ih.mp hsplit
        simp [hcs, eq_comm]

theorem splitLast?_append (hafter : sep ∉ after) :
    splitLast? sep (before ++ sep :: after) = some (before, after) := by
  induction before with
  | nil =>
      have hnone : splitLast? sep after = none := splitLast?_eq_none_iff.mpr hafter
      rw [List.nil_append, splitLast?, hnone]
      exact if_pos rfl
  | cons c before ih => rw [List.cons_append, splitLast?, ih]

theorem splitLast?_eq_some_iff :
    splitLast? sep cs = some (before, after) ↔ cs = before ++ sep :: after ∧ sep ∉ after := by
  constructor
  · intro h
    have hmem : sep ∈ cs := by
      by_contra hmem
      rw [splitLast?_eq_none_iff.mpr hmem] at h
      cases h
    -- the text can be parted at its last separator, and there is one way to do so
    obtain ⟨early, late, rfl, hlate, hearly⟩ := exists_last sep cs
    rcases hearly with rfl | hearly
    · exact absurd hmem hlate
    · obtain ⟨init, rfl⟩ := List.getLast?_eq_some_iff.mp hearly
      rw [List.append_assoc, List.singleton_append, splitLast?_append hlate] at h
      cases h
      exact ⟨by rw [List.append_assoc, List.singleton_append], hlate⟩
  · rintro ⟨rfl, hafter⟩
    exact splitLast?_append hafter

/-! ## Runs at the end -/

theorem dropTrailing_append (hfront : ∀ c ∈ front.getLast?, p c = false) (hback : ∀ c ∈ after, p c = true) :
    dropTrailing p (front ++ after) = front := by
  show (front ++ after).rdropWhile p = front
  induction after using List.reverseRecOn with
  | nil =>
      rw [List.append_nil, List.rdropWhile_eq_self_iff]
      intro hne
      simp [hfront _ (List.getLast?_eq_getLast_of_ne_nil hne)]
  | append_singleton init c ih =>
      rw [← List.append_assoc, List.rdropWhile_concat_pos p _ c (hback c (by simp))]
      exact ih fun c hc => hback c (List.mem_append_left _ hc)

theorem dropTrailing_eq_iff : dropTrailing p cs = front ↔
    (∀ c ∈ front.getLast?, p c = false) ∧ ∃ back, cs = front ++ back ∧ ∀ c ∈ back, p c = true := by
  constructor
  · intro h
    have hfront : cs.rdropWhile p = front := h
    subst hfront
    refine ⟨?_, cs.rtakeWhile p, List.rdropWhile_append_rtakeWhile.symm, fun c => List.mem_rtakeWhile_imp⟩
    intro c hc
    obtain ⟨hne, hlast⟩ := List.mem_getLast?_eq_getLast hc
    have hnot := List.rdropWhile_last_not p cs hne
    rw [hlast]
    simpa using hnot
  · rintro ⟨hfront, back, rfl, hback⟩
    exact dropTrailing_append hfront hback

/-! ## Runs at the beginning -/

/-- What is dropped at the beginning ends before a character that is not dropped. -/
theorem dropLeading_append_cons {c : Char} {rest : List Char} (hc : p c = false) :
    dropLeading p (cs ++ c :: rest) = dropLeading p cs ++ c :: rest := by
  induction cs with
  | nil => simp [dropLeading, hc]
  | cons d cs ih =>
      show (d :: (cs ++ c :: rest)).dropWhile p = (d :: cs).dropWhile p ++ c :: rest
      rw [List.dropWhile_cons, List.dropWhile_cons]
      split
      · exact ih
      · rfl

theorem dropLeading_subset : dropLeading p cs ⊆ cs := (List.dropWhile_sublist p).subset

/-- A text is white space throughout exactly when nothing is left of it without surrounding white space. -/
theorem isEmpty_trim_iff {s : String} : (trim s).isEmpty = true ↔ ∀ c ∈ s.toList, isBlank c = true := by
  have htrim : (trim s).isEmpty = true ↔ (s.toList.dropWhile isBlank).rdropWhile isBlank = [] := by
    rw [String.isEmpty_iff, trim, ← String.toList_inj, String.toList_ofList]
    rfl
  rw [htrim, List.rdropWhile_eq_nil_iff, ← List.dropWhile_eq_nil_iff, List.dropWhile_idempotent,
    List.dropWhile_eq_nil_iff]

end CodeSweep.Text
