import CodeSweep.Text.Search

/-! # Finding a piece of text

What `splitFirst?` gives is an occurrence (`splitFirst?_eq_some`), and no occurrence begins before it
(`exists_splitFirst?`). -/

namespace CodeSweep.Text

variable {needle cs before after : List Char}

theorem splitFirst?_eq_some (h : splitFirst? needle cs = some (before, after)) :
    cs = before ++ (needle ++ after) := by
  induction cs generalizing before with
  | nil =>
      obtain ⟨hneedle, hpair⟩ := Option.ite_none_right_eq_some.mp h
      cases hpair
      rw [List.isEmpty_iff.mp hneedle]
      rfl
  | cons c cs ih =>
      rw [splitFirst?] at h
      split at h
      next hprefix =>
        cases h
        obtain ⟨rest, hrest⟩ := List.isPrefixOf_iff_prefix.mp hprefix
        rw [← hrest, List.drop_left]
        rfl
      next =>
        obtain ⟨⟨front, back⟩, hsplit, hpair⟩ := Option.map_eq_some_iff.mp h
        cases hpair
        rw [List.cons_append, ← ih hsplit]

theorem exists_splitFirst? (h : cs = before ++ (needle ++ after)) :
    ∃ first rest, splitFirst? needle cs = some (first, rest) ∧ first.length ≤ before.length := by
  induction cs generalizing before with
  | nil =>
      have hneedle : needle = [] := by
        have hnil := List.append_eq_nil_iff.mp h.symm
        exact (List.append_eq_nil_iff.mp hnil.2).1
      exact ⟨[], [], by rw [splitFirst?, hneedle]; rfl, Nat.zero_le _⟩
  | cons c cs ih =>
      rw [splitFirst?]
      split
      next => exact ⟨[], _, rfl, Nat.zero_le _⟩
      next hprefix =>
        cases before with
        | nil => exact absurd (List.isPrefixOf_iff_prefix.mpr ⟨after, h.symm⟩) hprefix
        | cons b before =>
            obtain ⟨rfl, hcs⟩ := List.cons.inj h
            obtain ⟨first, rest, hsplit, hlength⟩ := ih hcs
            exact ⟨c :: first, rest, by rw [hsplit]; rfl, Nat.succ_le_succ hlength⟩

theorem dropEnding?_eq_some_iff {ending value : List Char} :
    dropEnding? ending cs = some value ↔ cs = value ++ ending := by
  rw [dropEnding?, Option.ite_none_right_eq_some, List.isSuffixOf_iff_suffix]
  constructor
  · rintro ⟨⟨front, rfl⟩, hvalue⟩
    cases hvalue
    simp
  · rintro rfl
    exact ⟨List.suffix_append value ending, by simp⟩

/-! ## Replacing -/

variable {new front : List Char}

theorem replaceFrom_length_append (needle new front cs : List Char) :
    replaceFrom needle new front.length (front ++ cs) = replaceFrom needle new 0 cs := by
  induction front with
  | nil => rfl
  | cons c front ih => rw [List.length_cons, List.cons_append, replaceFrom, ih]

theorem replaceFrom_append_self (hne : needle ≠ []) :
    replaceFrom needle new 0 (needle ++ cs) = new ++ replaceFrom needle new 0 cs := by
  obtain ⟨c, tail, rfl⟩ := List.exists_cons_of_ne_nil hne
  have hprefix : (c :: tail).isPrefixOf ((c :: tail) ++ cs) = true :=
    List.isPrefixOf_iff_prefix.mpr (List.prefix_append _ cs)
  rw [List.cons_append] at hprefix ⊢
  rw [replaceFrom, if_pos hprefix, List.length_cons, Nat.add_sub_cancel, replaceFrom_length_append]

theorem replaceFrom_of_not_prefix {c : Char} (h : ¬ needle <+: c :: cs) :
    replaceFrom needle new 0 (c :: cs) = c :: replaceFrom needle new 0 cs := by
  rw [replaceFrom, if_neg (mt List.isPrefixOf_iff_prefix.mp h)]

/-- Text without the first character of the needle stays as it is. -/
theorem replaceFrom_append_of_not_mem {c : Char} {tail : List Char} (h : c ∉ front) :
    replaceFrom (c :: tail) new 0 (front ++ cs) = front ++ replaceFrom (c :: tail) new 0 cs := by
  induction front with
  | nil => rfl
  | cons d front ih =>
      rw [List.mem_cons, not_or] at h
      have hprefix : ¬ c :: tail <+: d :: (front ++ cs) :=
        fun hprefix => h.1 (List.cons_prefix_cons.mp hprefix).1
      rw [List.cons_append, replaceFrom_of_not_prefix hprefix, ih h.2, List.cons_append]

end CodeSweep.Text
