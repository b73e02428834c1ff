import CodeSweep.Proofs.Template.Filling

/-! # The variables of a text

A text that matches a template captures a value for each placeholder. A name that captures anything is
bound, once, to what its first capture that is not empty says, and the offsets of a variable are where its
value stands in the text for the first time (`extract_binds`). -/

namespace CodeSweep.Template

variable {t : Template} {text value : List Char} {values : List (List Char)} {p : Placeholder}

/-- The capture is the first under its name that is not empty. -/
structure FirstCapture (captures : List (Placeholder × List Char)) (p : Placeholder) (value : List Char) :
    Prop where
  nonempty : value ≠ []
  first : ∃ before after, captures = before ++ (p, value) :: after ∧
    ∀ c ∈ before, nameOf c.1 = nameOf p → c.2 = []

/-- The value of the variable stands in the text from its start to its stop, and nowhere earlier. -/
structure Locates (text : List Char) (v : Variable) : Prop where
  stands : text.extract v.start v.stop = v.value
  first : ∀ start stop, text.extract start stop = v.value → v.start ≤ start
  fits : v.stop ≤ text.length

/-- The variables bind the names that captured something, each to its first capture. -/
structure Binds (captures : List (Placeholder × List Char)) (text : List Char) (vars : Bindings) : Prop where
  ordered : vars.Pairwise (Ordered.byKey · · = .lt)
  names : ∀ name, (∃ v, (name, v) ∈ vars) ↔ ∃ c ∈ captures, nameOf c.1 = name ∧ c.2 ≠ []
  first : ∀ name v, (name, v) ∈ vars →
    nameOf v.placeholder = name ∧ FirstCapture captures v.placeholder v.value
  offsets : ∀ name v, (name, v) ∈ vars → Locates text v

/-! ## Offsets -/

theorem locates_bound (h : ∃ before after, text = before ++ (value ++ after)) :
    Locates text (bound text p value) := by
  obtain ⟨before, after, htext⟩ := h
  obtain ⟨front, rest, hsplit, -⟩ := Text.exists_splitFirst? htext
  have hbound : bound text p value = ⟨p, value, front.length, front.length + value.length⟩ := by
    rw [bound, hsplit]
    rfl
  have hcut := Text.splitFirst?_eq_some hsplit
  rw [hbound]
  constructor
  · show text.extract front.length (front.length + value.length) = value
    rw [hcut]
    simp [List.extract]
  · intro start stop hstands
    -- where the value stands, an occurrence begins, and the first one is no later
    have hoccurs : text = text.take start ++ (value ++ (text.drop start).drop (stop - start)) := by
      rw [← show (text.drop start).take (stop - start) = value from hstands, List.take_append_drop,
        List.take_append_drop]
    obtain ⟨front', rest', hsplit', hlength⟩ := Text.exists_splitFirst? hoccurs
    cases hsplit.symm.trans hsplit'
    exact Nat.le_trans hlength (List.length_take_le start text)
  · show front.length + value.length ≤ text.length
    rw [hcut, List.length_append, List.length_append]
    omega

/-- A value of a reading is a piece of the text. -/
theorem Reads.exists_append {holes : List (Placeholder × List Char)} (h : Reads holes text values)
    (hvalue : value ∈ values) : ∃ before after, text = before ++ (value ++ after) := by
  induction h with
  | nil => cases hvalue
  | @cons p after holes first rest values _ _ ih =>
      rcases List.mem_cons.mp hvalue with rfl | hvalue
      · exact ⟨[], after ++ rest, rfl⟩
      · obtain ⟨before, back, rfl⟩ := ih hvalue
        exact ⟨first ++ (after ++ before), back, by simp⟩

theorem exists_append_of_captured (h : (p, value) ∈ t.captured text) :
    ∃ before after, text = before ++ (value ++ after) := by
  cases hmatch : t.match? text with
  | none =>
      rw [captured_of_none hmatch] at h
      cases h
  | some values =>
      rw [captured_of_some hmatch] at h
      obtain ⟨rest, rfl, hreads⟩ := (match?_eq_some_iff.mp hmatch).1
      obtain ⟨before, after, rfl⟩ := hreads.exists_append (List.of_mem_zip h).2
      exact ⟨t.lead ++ before, after, (List.append_assoc ..).symm⟩

/-! ## Bindings -/

theorem pairwise_bindOnce {vars : Bindings} (h : vars.Pairwise (Ordered.byKey · · = .lt)) :
    (bindOnce text vars p value).Pairwise (Ordered.byKey · · = .lt) := by
  rw [bindOnce]
  split
  next => exact h
  next => exact Ordered.pairwise_bind h

theorem pairwise_extract (t : Template) (text : List Char) :
    (t.extract text).Pairwise (Ordered.byKey · · = .lt) := by
  rw [extract_eq]
  exact List.foldlRecOn _ _ .nil fun _ h _ _ => pairwise_bindOnce h

theorem find?_eq_some_iff {captures : List (Placeholder × List Char)} {name : String} :
    captures.find? (fun c => nameOf c.1 = name ∧ c.2 ≠ []) = some (p, value) ↔
      FirstCapture captures p value ∧ nameOf p = name := by
  rw [List.find?_eq_some_iff_append, decide_eq_true_eq]
  constructor
  · rintro ⟨⟨rfl, hvalue⟩, before, after, hcaptures, hbefore⟩
    refine ⟨⟨hvalue, before, after, hcaptures, fun c hc hname => ?_⟩, rfl⟩
    simpa [hname] using hbefore c hc
  · rintro ⟨⟨hvalue, before, after, hcaptures, hbefore⟩, rfl⟩
    refine ⟨⟨rfl, hvalue⟩, before, after, hcaptures, fun c hc => ?_⟩
    simpa [imp_iff_not_or] using hbefore c hc

/-- A name is bound to its first capture that is not empty, and to nothing else. -/
theorem mem_extract_iff {name : String} {v : Variable} : (name, v) ∈ t.extract text ↔
    ∃ p value, (FirstCapture (t.captured text) p value ∧ nameOf p = name) ∧ bound text p value = v := by
  rw [← Ordered.lookup_eq_some_iff (pairwise_extract t text), lookup_extract, Option.map_eq_some_iff]
  simp only [Prod.exists, find?_eq_some_iff]

theorem FirstCapture.mem {captures : List (Placeholder × List Char)} (h : FirstCapture captures p value) :
    (p, value) ∈ captures := by
  obtain ⟨before, after, rfl, -⟩ := h.first
  simp

/-- Where anything is captured under a name, there is a first capture. -/
theorem exists_firstCapture_iff {captures : List (Placeholder × List Char)} {name : String} :
    (∃ p value, FirstCapture captures p value ∧ nameOf p = name) ↔
      ∃ c ∈ captures, nameOf c.1 = name ∧ c.2 ≠ [] := by
  have hfind : (captures.find? fun c => nameOf c.1 = name ∧ c.2 ≠ []).isSome = true ↔
      ∃ c ∈ captures, nameOf c.1 = name ∧ c.2 ≠ [] := by
    simp
  rw [← hfind, Option.isSome_iff_exists]
  simp only [Prod.exists, find?_eq_some_iff]

theorem extract_of_placeholders_nil (h : t.placeholders = []) : t.extract text = [] := by
  rw [extract_eq, captured, h]
  rfl

theorem extract_of_none (h : t.match? text = none) : t.extract text = [] := by
  rw [extract_eq, captured_of_none h]
  rfl

theorem extract_binds_captured (t : Template) (text : List Char) :
    Binds (t.captured text) text (t.extract text) where
  ordered := pairwise_extract t text
  names name := by
    rw [← exists_firstCapture_iff]
    constructor
    · rintro ⟨v, hv⟩
      obtain ⟨p, value, hfirst, -⟩ := mem_extract_iff.mp hv
      exact ⟨p, value, hfirst⟩
    · rintro ⟨p, value, hfirst⟩
      exact ⟨_, mem_extract_iff.mpr ⟨p, value, hfirst, rfl⟩⟩
  first name v hv := by
    obtain ⟨p, value, ⟨hfirst, hname⟩, rfl⟩ := mem_extract_iff.mp hv
    exact ⟨hname, hfirst⟩
  offsets name v hv := by
    obtain ⟨p, value, ⟨hfirst, -⟩, rfl⟩ := mem_extract_iff.mp hv
    exact locates_bound (exists_append_of_captured hfirst.mem)

/-- **Variables are what was captured.** For every pattern and text: where the text matches, each name with
a capture that is not empty is bound to the first one, in its form, at the place where its value stands
first; where there is no placeholder or no match, nothing is bound. -/
theorem extract_binds (pattern : String) (text : List Char) :
    (∀ values, (ofString pattern).match? text = some values →
      values.length = (ofString pattern).placeholders.length ∧
      Binds ((ofString pattern).placeholders.zip values) text ((ofString pattern).extract text)) ∧
    ((ofString pattern).placeholders = [] ∨ (ofString pattern).match? text = none →
      (ofString pattern).extract text = []) := by
  constructor
  · intro values hmatch
    refine ⟨length_of_match? hmatch, ?_⟩
    rw [← captured_of_some hmatch]
    exact extract_binds_captured _ text
  · rintro (hnil | hnone)
    · exact extract_of_placeholders_nil hnil
    · exact extract_of_none hnone

/-- `A` captures nothing at first and is bound by its second capture, which stands already in what `B`
captured; offsets count characters. -/
theorem extract_binds_repeated :
    (ofString "é$$$A$B $A").match? "éxé xé".toList = some ["".toList, "xé".toList, "xé".toList] ∧
    Binds ((ofString "é$$$A$B $A").placeholders.zip ["".toList, "xé".toList, "xé".toList]) "éxé xé".toList
      ((ofString "é$$$A$B $A").extract "éxé xé".toList) ∧
    (ofString "é$$$A$B $A").extract "éxé xé".toList =
      [("A", ⟨⟨['A'], false⟩, "xé".toList, 1, 3⟩), ("B", ⟨⟨['B'], false⟩, "xé".toList, 1, 3⟩)] ∧
    (ofString "plain").extract "plain".toList = [] := by
  have hmatch : (ofString "é$$$A$B $A").match? "éxé xé".toList =
      some ["".toList, "xé".toList, "xé".toList] := by decide +kernel
  refine ⟨hmatch, ((extract_binds _ _).1 _ hmatch).2, by decide +kernel, ?_⟩
  exact (extract_binds "plain" _).2 (.inl (by decide +kernel))

end CodeSweep.Template
