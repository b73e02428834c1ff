import CodeSweep.Proofs.Template.Scan
import CodeSweep.Proofs.Text.Search
import CodeSweep.Template.Match

/-! # The readings of a text

A template stands for an expression: its own text, with a lazy gap in the place of each placeholder. A
text may match it in several ways, and the first of them counts when every gap is tried with as few
characters as may be and the gaps before it are kept as long as they can (`ways`).

Matching does not search like that. It takes the first place where the text after a placeholder occurs,
once for each placeholder. Both give the same (`match?_least`): the reading with the least lengths, the
first length first, whenever there is a reading at all. What makes it true is `Reads.widen`: the value
after a gap may as well begin earlier, so no place is too early for a gap to end. -/

namespace CodeSweep.Template

variable {t : Template} {holes : List (Placeholder × List Char)} {p : Placeholder}
  {cs text after rest value : List Char} {values others : List (List Char)}

/-! ## Readings -/

/-- A reading of the text from the first placeholder on: each placeholder stands for a value, and its
own text follows it. -/
inductive Reads : List (Placeholder × List Char) → List Char → List (List Char) → Prop
  | nil : Reads [] [] []
  | cons {p : Placeholder} {after : List Char} {holes : List (Placeholder × List Char)}
      {value rest : List Char} {values : List (List Char)} (filled : p.multiple = false → value ≠ [])
      (tail : Reads holes rest values) :
      Reads ((p, after) :: holes) (value ++ (after ++ rest)) (value :: values)

/-- A reading of a text: the text before the first placeholder, and from there on a value for each
placeholder. -/
def IsReading (t : Template) (text : List Char) (values : List (List Char)) : Prop :=
  ∃ rest, text = t.lead ++ rest ∧ Reads t.holes rest values

/-- The values are a reading, and of all readings they have the least lengths, the first one first. -/
def IsLeast (reading : List (List Char) → Prop) (values : List (List Char)) : Prop :=
  reading values ∧ ∀ others, reading others → others ≠ values →
    values.map List.length < others.map List.length

theorem IsLeast.unique {reading : List (List Char) → Prop} (h : IsLeast reading values)
    (h' : IsLeast reading others) : values = others := by
  by_cases hne : values = others
  · exact hne
  · have hlt := h.2 others h'.1 (Ne.symm hne)
    have hgt := h'.2 values h.1 hne
    exact absurd (List.lt_trans hlt hgt) (List.lt_irrefl _)

theorem leastLength_le_iff : leastLength p ≤ value.length ↔ (p.multiple = false → value ≠ []) := by
  cases hp : p.multiple <;> simp [leastLength, hp, Nat.one_le_iff_ne_zero]

theorem reads_nil_iff : Reads [] cs values ↔ cs = [] ∧ values = [] := by
  constructor
  · rintro ⟨⟩
    exact ⟨rfl, rfl⟩
  · rintro ⟨rfl, rfl⟩
    exact .nil

theorem reads_cons_iff : Reads ((p, after) :: holes) cs values ↔
    ∃ value rest others, values = value :: others ∧ cs = value ++ (after ++ rest) ∧
      leastLength p ≤ value.length ∧ Reads holes rest others := by
  constructor
  · intro h
    cases h with
    | cons filled tail => exact ⟨_, _, _, rfl, rfl, leastLength_le_iff.mpr filled, tail⟩
  · rintro ⟨value, rest, others, rfl, rfl, hvalue, tail⟩
    exact .cons (leastLength_le_iff.mp hvalue) tail

/-- A value may as well begin earlier. -/
theorem Reads.widen (h : Reads ((p, after) :: holes) cs (value :: values)) (more : List Char) :
    Reads ((p, after) :: holes) (more ++ cs) ((more ++ value) :: values) := by
  cases h with
  | cons filled tail =>
      rw [← List.append_assoc]
      refine .cons (fun hp => ?_) tail
      simp [filled hp]

/-! ## The first way to match -/

/-- What an expression is made of: text that has to stand there, and gaps that hold any characters, at
least so many. -/
inductive Part where
  | literal (text : List Char)
  | gap (least : Nat)

/-- The expression of what follows the first piece of a template. -/
def parts (holes : List (Placeholder × List Char)) : List Part :=
  holes.flatMap fun (p, after) => [.gap (leastLength p), .literal after]

/-- The expression that a template stands for. -/
def expression (t : Template) : List Part := .literal t.lead :: parts t.holes

/-- The ways in which an expression matches a whole text, in order of preference, as what the gaps
hold: a gap is tried with as few characters as may be first. -/
def ways : List Part → List Char → List (List (List Char))
  | [], cs => if cs.isEmpty then [[]] else []
  | .literal text :: parts, cs =>
    if text.isPrefixOf cs then ways parts (cs.drop text.length) else []
  | .gap least :: parts, cs =>
    (List.range' least (cs.length + 1 - least)).flatMap fun n =>
      (ways parts (cs.drop n)).map (cs.take n :: ·)

theorem mem_ways_literal {parts : List Part} :
    values ∈ ways (.literal text :: parts) cs ↔ ∃ rest, cs = text ++ rest ∧ values ∈ ways parts rest := by
  rw [ways]
  split
  next hprefix =>
    obtain ⟨rest, rfl⟩ := List.isPrefixOf_iff_prefix.mp hprefix
    simp
  next hprefix =>
    refine ⟨nofun, ?_⟩
    rintro ⟨rest, rfl, -⟩
    exact absurd (List.isPrefixOf_iff_prefix.mpr (List.prefix_append text rest)) hprefix

theorem mem_ways_gap {parts : List Part} {least : Nat} :
    values ∈ ways (.gap least :: parts) cs ↔
      ∃ value rest others, values = value :: others ∧ cs = value ++ rest ∧ least ≤ value.length ∧
        others ∈ ways parts rest := by
  simp only [ways, List.mem_flatMap, List.mem_range'_1, List.mem_map]
  constructor
  · rintro ⟨n, ⟨hleast, hn⟩, others, hothers, rfl⟩
    refine ⟨cs.take n, cs.drop n, others, rfl, (List.take_append_drop n cs).symm, ?_, hothers⟩
    rw [List.length_take]
    omega
  · rintro ⟨value, rest, others, rfl, rfl, hleast, hothers⟩
    refine ⟨value.length, ⟨hleast, ?_⟩, others, ?_, ?_⟩
    · rw [List.length_append]
      omega
    · rwa [List.drop_left]
    · rw [List.take_left]

theorem mem_ways_parts : values ∈ ways (parts holes) cs ↔ Reads holes cs values := by
  induction holes generalizing cs values with
  | nil =>
      rw [reads_nil_iff, parts, List.flatMap_nil, ways]
      split <;> simp_all
  | cons hole holes ih =>
      obtain ⟨p, after⟩ := hole
      show values ∈ ways (.gap (leastLength p) :: .literal after :: parts holes) cs ↔ _
      simp only [mem_ways_gap, mem_ways_literal, ih, reads_cons_iff]
      constructor
      · rintro ⟨value, _, others, rfl, rfl, hvalue, rest, rfl, htail⟩
        exact ⟨value, rest, others, rfl, rfl, hvalue, htail⟩
      · rintro ⟨value, rest, others, rfl, rfl, hvalue, htail⟩
        exact ⟨value, _, others, rfl, rfl, hvalue, rest, rfl, htail⟩

theorem mem_ways_expression : values ∈ ways t.expression text ↔ t.IsReading text values := by
  rw [expression, mem_ways_literal]
  simp only [mem_ways_parts]
  rfl

theorem pairwise_ways (parts : List Part) (cs : List Char) :
    (ways parts cs).Pairwise fun a b => a.map List.length < b.map List.length := by
  induction parts generalizing cs with
  | nil =>
      rw [ways]
      split <;> simp
  | cons part parts ih =>
      cases part with
      | literal text =>
          rw [ways]
          split
          · exact ih _
          · exact List.Pairwise.nil
      | gap least =>
          rw [ways, List.pairwise_flatMap]
          refine ⟨fun n _ => ?_, ?_⟩
          · rw [List.pairwise_map]
            exact (ih _).imp fun h => List.cons_lt_cons_iff.mpr (.inr ⟨rfl, h⟩)
          · -- the gap is longer from one number to the next
            refine List.Pairwise.imp_of_mem ?_ (List.pairwise_lt_range' 1)
            intro n m hn hm hlt a ha b hb
            obtain ⟨a, -, rfl⟩ := List.mem_map.mp ha
            obtain ⟨b, -, rfl⟩ := List.mem_map.mp hb
            rw [List.mem_range'_1] at hn hm
            refine List.cons_lt_cons_iff.mpr (.inl ?_)
            rw [List.length_take, List.length_take]
            omega

/-- The first way is the least reading. -/
theorem head?_ways_eq_some_iff :
    (ways t.expression text).head? = some values ↔ IsLeast (t.IsReading text) values := by
  have hpairwise := pairwise_ways t.expression text
  simp only [IsLeast, ← mem_ways_expression]
  cases hways : ways t.expression text with
  | nil => simp
  | cons first more =>
      rw [hways, List.pairwise_cons] at hpairwise
      rw [List.head?_cons, Option.some.injEq]
      constructor
      · rintro rfl
        refine ⟨List.mem_cons_self, fun others hothers hne => ?_⟩
        exact hpairwise.1 others ((List.mem_cons.mp hothers).resolve_left hne)
      · rintro ⟨hvalues, hleast⟩
        by_cases hne : first = values
        · exact hne
        · have hlt := hpairwise.1 values ((List.mem_cons.mp hvalues).resolve_left (Ne.symm hne))
          have hgt := hleast first List.mem_cons_self hne
          exact absurd (List.lt_trans hlt hgt) (List.lt_irrefl _)

/-! ## Taking the first place -/

theorem shortest?_eq_some {least : Nat} (h : shortest? least after cs = some (value, rest)) :
    cs = value ++ (after ++ rest) ∧ least ≤ value.length := by
  obtain ⟨hlength, hsplit⟩ := Option.ite_none_left_eq_some.mp h
  obtain ⟨⟨found, rest'⟩, hfound, hpair⟩ := Option.map_eq_some_iff.mp hsplit
  cases hpair
  constructor
  · rw [List.append_assoc, ← Text.splitFirst?_eq_some hfound, List.take_append_drop]
  · rw [List.length_append, List.length_take]
    omega

theorem exists_shortest? {least : Nat} (h : cs = value ++ (after ++ rest))
    (hleast : least ≤ value.length) :
    ∃ first more, shortest? least after cs = some (first, more) ∧ first.length ≤ value.length := by
  have hdrop : cs.drop least = value.drop least ++ (after ++ rest) := by
    rw [h, List.drop_append_of_le_length hleast]
  obtain ⟨found, more, hfound, hlength⟩ := Text.exists_splitFirst? hdrop
  have hcs : ¬ cs.length < least := by
    rw [h, List.length_append]
    omega
  refine ⟨cs.take least ++ found, more, ?_, ?_⟩
  · rw [shortest?, if_neg hcs, hfound]
    rfl
  · rw [List.length_append, List.length_take]
    rw [List.length_drop] at hlength
    omega

/-- What is left after one place ends in what is left after a later one. -/
theorem exists_append_of_place {value' rest' : List Char}
    (h : value ++ (after ++ rest) = value' ++ (after ++ rest')) (hle : value.length ≤ value'.length) :
    ∃ more, rest = more ++ rest' ∧ value'.length = value.length + more.length := by
  have hlength := congrArg List.length h
  simp only [List.length_append] at hlength
  rw [← List.append_assoc, ← List.append_assoc] at h
  obtain ⟨more, rfl⟩ : rest' <:+ rest :=
    List.suffix_of_suffix_length_le ⟨_, h.symm⟩ ⟨_, rfl⟩ (by omega)
  refine ⟨more, rfl, ?_⟩
  rw [List.length_append] at hlength
  omega

theorem reads_last_iff : Reads [(p, after)] cs values ↔
    ∃ value, Text.dropEnding? after cs = some value ∧ leastLength p ≤ value.length ∧ values = [value] := by
  simp only [reads_cons_iff, reads_nil_iff, Text.dropEnding?_eq_some_iff]
  constructor
  · rintro ⟨value, _, _, rfl, rfl, hvalue, rfl, rfl⟩
    exact ⟨value, by rw [List.append_nil], hvalue, rfl⟩
  · rintro ⟨value, rfl, hvalue, rfl⟩
    exact ⟨value, [], [], rfl, by rw [List.append_nil], hvalue, rfl, rfl⟩

theorem reads_of_values? (h : values? holes cs = some values) : Reads holes cs values := by
  fun_induction values? holes cs generalizing values with
  | case1 cs hcs =>
      cases h
      exact reads_nil_iff.mpr ⟨List.isEmpty_iff.mp hcs, rfl⟩
  | case4 p after cs value hvalue hlength =>
      cases h
      exact reads_last_iff.mpr ⟨value, hvalue, Nat.not_lt.mp hlength, rfl⟩
  | case6 p after next holes cs value rest hshortest ih =>
      obtain ⟨others, hothers, rfl⟩ := Option.map_eq_some_iff.mp h
      obtain ⟨rfl, hlength⟩ := shortest?_eq_some hshortest
      exact reads_cons_iff.mpr ⟨value, rest, others, rfl, rfl, hlength, ih hothers⟩
  | case2 | case3 | case5 | case7 => cases h

/-- Whenever there is a reading, one is found that is no longer, the first length first. -/
theorem exists_values? (h : Reads holes cs others) :
    ∃ values, values? holes cs = some values ∧
      (values = others ∨ values.map List.length < others.map List.length) := by
  fun_induction values? holes cs generalizing others with
  | case1 => exact ⟨[], rfl, .inl (reads_nil_iff.mp h).2.symm⟩
  | case2 cs hcs => exact absurd (List.isEmpty_iff.mpr (reads_nil_iff.mp h).1) hcs
  | case3 p after cs value hvalue hlength =>
      obtain ⟨value', hvalue', hlength', -⟩ := reads_last_iff.mp h
      cases hvalue.symm.trans hvalue'
      omega
  | case4 p after cs value hvalue _ =>
      obtain ⟨value', hvalue', -, rfl⟩ := reads_last_iff.mp h
      cases hvalue.symm.trans hvalue'
      exact ⟨[value], rfl, .inl rfl⟩
  | case5 p after cs hnone =>
      obtain ⟨value, hvalue, -⟩ := reads_last_iff.mp h
      cases hnone.symm.trans hvalue
  | case6 p after next holes cs value rest hshortest ih =>
      obtain ⟨value', rest', others, rfl, hcs', hleast, htail⟩ := reads_cons_iff.mp h
      obtain ⟨first, more, hfirst, hlength⟩ := exists_shortest? hcs' hleast
      cases hshortest.symm.trans hfirst
      obtain ⟨hcs, -⟩ := shortest?_eq_some hshortest
      obtain ⟨more, rfl, hmore⟩ := exists_append_of_place (hcs.symm.trans hcs') hlength
      by_cases hplace : more = []
      · -- the places are the same, and so is what is left
        subst hplace
        obtain rfl : value = value' := (List.append_inj (hcs.symm.trans hcs') hmore.symm).1
        obtain ⟨values, hvalues, hle⟩ := ih htail
        refine ⟨value :: values, by rw [hvalues]; rfl, ?_⟩
        rcases hle with rfl | hlt
        · exact .inl rfl
        · exact .inr (List.cons_lt_cons_iff.mpr (.inr ⟨rfl, hlt⟩))
      · -- the first place is an earlier one, and the next value takes in what lies between them
        have hshorter : value.length < value'.length := by
          have := List.length_pos_iff.mpr hplace
          omega
        cases htail with
        | cons filled tail =>
            obtain ⟨values, hvalues, -⟩ := ih ((Reads.cons filled tail).widen more)
            refine ⟨value :: values, by rw [hvalues]; rfl, .inr ?_⟩
            exact List.cons_lt_cons_iff.mpr (.inl hshorter)
  | case7 p after next holes cs hnone =>
      obtain ⟨value, rest, _, -, hcs, hleast, -⟩ := reads_cons_iff.mp h
      obtain ⟨first, more, hfirst, -⟩ := exists_shortest? hcs hleast
      cases hnone.symm.trans hfirst

theorem isLeast_of_values? (h : values? holes cs = some values) : IsLeast (Reads holes cs) values := by
  refine ⟨reads_of_values? h, fun others hothers hne => ?_⟩
  obtain ⟨values', hvalues', hle⟩ := exists_values? hothers
  cases h.symm.trans hvalues'
  exact hle.resolve_left (Ne.symm hne)

theorem values?_eq_some_iff : values? holes cs = some values ↔ IsLeast (Reads holes cs) values := by
  refine ⟨isLeast_of_values?, fun h => ?_⟩
  obtain ⟨values', hvalues', -⟩ := exists_values? h.1
  rw [hvalues', (isLeast_of_values? hvalues').unique h]

theorem isReading_append : t.IsReading (t.lead ++ rest) values ↔ Reads t.holes rest values := by
  constructor
  · rintro ⟨rest', htext, hreads⟩
    rwa [List.append_cancel_left htext]
  · exact fun hreads => ⟨rest, rfl, hreads⟩

theorem match?_eq_some_iff : t.match? text = some values ↔ IsLeast (t.IsReading text) values := by
  rw [match?]
  split
  next hprefix =>
    obtain ⟨rest, rfl⟩ := List.isPrefixOf_iff_prefix.mp hprefix
    rw [List.drop_left, values?_eq_some_iff]
    simp only [IsLeast, isReading_append]
  next hprefix =>
    refine ⟨nofun, ?_⟩
    rintro ⟨⟨rest, rfl, -⟩, -⟩
    exact absurd (List.isPrefixOf_iff_prefix.mpr (List.prefix_append t.lead rest)) hprefix

theorem match?_eq_head?_ways (t : Template) (text : List Char) :
    t.match? text = (ways t.expression text).head? :=
  Option.ext fun _ => match?_eq_some_iff.trans head?_ways_eq_some_iff.symm

theorem exists_match?_iff :
    (∃ values, t.match? text = some values) ↔ ∃ values, t.IsReading text values := by
  constructor
  · rintro ⟨values, h⟩
    exact ⟨values, (match?_eq_some_iff.mp h).1⟩
  · rintro ⟨values, h⟩
    have hways : ways t.expression text ≠ [] := List.ne_nil_of_mem (mem_ways_expression.mpr h)
    obtain ⟨first, hfirst⟩ := Option.isSome_iff_exists.mp (List.isSome_head?.mpr hways)
    exact ⟨first, (match?_eq_head?_ways t text).trans hfirst⟩

/-- **A text is matched whenever it can be read, by the least reading.** For every pattern, which is its
pieces and placeholders put together, and every text: matching gives the first way of the pattern's
expression; it gives one whenever the text has a reading; and it is the reading whose lengths come first. -/
theorem match?_least (pattern : String) (text : List Char) :
    (ofString pattern).text = pattern.toList ∧
    (ofString pattern).match? text = (ways (ofString pattern).expression text).head? ∧
    ((∃ values, (ofString pattern).match? text = some values) ↔
      ∃ values, (ofString pattern).IsReading text values) ∧
    ∀ values, (ofString pattern).match? text = some values ↔
      IsLeast ((ofString pattern).IsReading text) values :=
  ⟨text_ofString pattern, match?_eq_head?_ways _ text, exists_match?_iff, fun _ => match?_eq_some_iff⟩

-- the first value ends as early as it can, though it could also hold the first sum
example : (ofString "$A + $B").match? "a + b + c".toList = some ["a".toList, "b + c".toList] := by
  decide +kernel

end CodeSweep.Template
