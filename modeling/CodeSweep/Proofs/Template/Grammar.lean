import CodeSweep.Proofs.Template.Filling
import Mathlib.Data.List.TakeWhile

/-! # Where a text declares placeholders

A placeholder is declared by a run of capitals that dollar signs precede and that neither a capital nor
any other word character follows; it is multiple where the dollar signs are three or more. Cutting a
text finds just these places (`mem_sites_scan`): it goes through the text from the left, and a place that
it leaves behind declares nothing (`declaredAt_cons`), while one that it takes declares what it took and
nothing else (`declaredAt_token`). -/

namespace CodeSweep.Template

variable {c : Char} {cs before after rest name front : List Char} {n m : Nat} {p q : Placeholder}

/-! ## Names -/

/-- A run of capitals that ends where `after` begins, at the end of a word. -/
structure IsName (name after : List Char) : Prop where
  nonempty : name ≠ []
  capitals : ∀ c ∈ name, isCapital c = true
  maximal : ∀ c ∈ after.head?, isCapital c = false
  boundary : ∀ c ∈ after.head?, Text.isWordChar c = false

theorem endsName_iff : endsName after = true ↔ ∀ c ∈ after.head?, Text.isWordChar c = false := by
  cases after with
  | nil => simp [endsName]
  | cons c cs => simp [endsName]

theorem name?_eq_some_iff : name? cs = some (name, rest) ↔ cs = name ++ rest ∧ IsName name rest := by
  constructor
  · intro h
    have hcs := append_of_name? h
    obtain ⟨hname, hpair⟩ := Option.ite_none_left_eq_some.mp h
    rw [Bool.or_eq_true, not_or, Bool.not_eq_true', Bool.not_eq_false, endsName_iff] at hname
    cases hpair
    refine ⟨hcs, ?_, fun c => List.mem_takeWhile_imp, ?_, hname.2⟩
    · exact mt List.isEmpty_iff.mpr hname.1
    · intro c hc
      have := List.head?_dropWhile_not isCapital cs
      rwa [hc] at this
  · rintro ⟨rfl, h⟩
    have hrest : rest.takeWhile isCapital = [] ∧ rest.dropWhile isCapital = rest := by
      cases rest with
      | nil => exact ⟨rfl, rfl⟩
      | cons c rest => simp [h.maximal c rfl]
    have htake : (name ++ rest).takeWhile isCapital = name := by
      rw [List.takeWhile_append_of_pos h.capitals, hrest.1, List.append_nil]
    have hdrop : (name ++ rest).dropWhile isCapital = rest := by
      rw [List.dropWhile_append_of_pos h.capitals, hrest.2]
    have hends := endsName_iff.mpr h.boundary
    have hempty : name.isEmpty = false := List.isEmpty_eq_false_iff.mpr h.nonempty
    rw [name?, htake, hdrop, hends, hempty]
    rfl

/-- The run of capitals at the front of a text is one. -/
theorem IsName.unique {name' rest' : List Char} (h : IsName name rest) (h' : IsName name' rest')
    (heq : name ++ rest = name' ++ rest') : name = name' ∧ rest = rest' := by
  have hname := name?_eq_some_iff.mpr ⟨rfl, h⟩
  have hname' := name?_eq_some_iff.mpr ⟨heq, h'⟩
  exact Prod.mk.inj (Option.some.inj (hname.symm.trans hname'))

theorem ne_dollar_of_isCapital (h : isCapital c = true) : c ≠ '$' := by
  rintro rfl
  cases h

theorem IsName.exists_cons (h : IsName name rest) : ∃ c tail, name = c :: tail ∧ c ≠ '$' := by
  obtain ⟨c, tail, rfl⟩ := List.exists_cons_of_ne_nil h.nonempty
  exact ⟨c, tail, rfl, ne_dollar_of_isCapital (h.capitals c List.mem_cons_self)⟩

theorem placeholder?_eq_some_iff :
    placeholder? cs = some (p, rest) ↔ cs = p.token ++ rest ∧ IsName p.name rest := by
  constructor
  · intro h
    refine ⟨append_of_placeholder? h, ?_⟩
    unfold placeholder? at h
    split at h
    next =>
      obtain ⟨⟨name, rest'⟩, hname, hpair⟩ := Option.map_eq_some_iff.mp h
      cases hpair
      exact (name?_eq_some_iff.mp hname).2
    next =>
      obtain ⟨⟨name, rest'⟩, hname, hpair⟩ := Option.map_eq_some_iff.mp h
      cases hpair
      exact (name?_eq_some_iff.mp hname).2
    next => cases h
  · rintro ⟨rfl, h⟩
    obtain ⟨name, multiple⟩ := p
    have hname : name? (name ++ rest) = some (name, rest) := name?_eq_some_iff.mpr ⟨rfl, h⟩
    cases multiple with
    | true =>
        show placeholder? ('$' :: '$' :: '$' :: (name ++ rest)) = _
        rw [placeholder?, hname]
        rfl
    | false =>
        show placeholder? ('$' :: (name ++ rest)) = _
        obtain ⟨c, tail, rfl, hc⟩ := h.exists_cons
        unfold placeholder?
        split
        next heq =>
          simp only [List.cons_append, List.cons.injEq] at heq
          exact absurd heq.2.1 hc
        next heq =>
          rw [← List.tail_eq_of_cons_eq heq, hname]
          rfl
        next hnone => exact absurd rfl (hnone _)

/-! ## Declarations -/

/-- How many dollar signs directly precede. -/
def dollars (before : List Char) : Nat := (before.reverse.takeWhile (· == '$')).length

/-- The name of the placeholder stands between `before` and `after`, and its form is the one that the
dollar signs before it ask for. -/
structure Declares (before : List Char) (p : Placeholder) (after : List Char) : Prop extends
    IsName p.name after where
  dollar : 1 ≤ dollars before
  multiple : p.multiple = true ↔ 3 ≤ dollars before

/-- The text declares the placeholder, and its name begins after `n` characters. -/
def DeclaredAt (cs : List Char) (n : Nat) (p : Placeholder) : Prop :=
  ∃ before after, cs = before ++ (p.name ++ after) ∧ before.length = n ∧ Declares before p after

/-- Of what stands before a name only the number of dollar signs matters, and of that number only whether
it reaches one and three. -/
theorem declares_congr {before' : List Char} (hone : 1 ≤ dollars before ↔ 1 ≤ dollars before')
    (hthree : 3 ≤ dollars before ↔ 3 ≤ dollars before') :
    Declares before p after ↔ Declares before' p after := by
  constructor
  · rintro ⟨hname, hdollar, hmultiple⟩
    exact ⟨hname, hone.mp hdollar, hmultiple.trans hthree⟩
  · rintro ⟨hname, hdollar, hmultiple⟩
    exact ⟨hname, hone.mpr hdollar, hmultiple.trans hthree.symm⟩

theorem declares_congr_of_eq {before' : List Char} (h : dollars before = dollars before') :
    Declares before p after ↔ Declares before' p after :=
  declares_congr (by rw [h]) (by rw [h])

/-- Dollar signs count back to the last other character. -/
theorem dollars_append (hfront : ∀ c ∈ front.getLast?, c ≠ '$') (cs : List Char) :
    dollars (front ++ cs) = dollars cs := by
  have hnone : front.reverse.takeWhile (· == '$') = [] := by
    rw [← List.head?_reverse] at hfront
    cases hrev : front.reverse with
    | nil => rfl
    | cons c tail =>
        have hc : c ≠ '$' := hfront c (by rw [hrev]; rfl)
        simp [hc]
  rw [dollars, List.reverse_append, List.takeWhile_append, hnone, List.append_nil, dollars]
  split
  next hall => exact hall.symm
  next => rfl

theorem dollars_replicate (n : Nat) : dollars (List.replicate n '$') = n := by
  simp [dollars]

/-- One more dollar sign counts where there are only dollar signs behind it. -/
theorem dollars_cons (h : ¬ (c = '$' ∧ cs = List.replicate cs.length '$')) :
    dollars (c :: cs) = dollars cs := by
  rw [dollars, List.reverse_cons, List.takeWhile_append, dollars]
  split
  next hall =>
    have hself := (List.takeWhile_prefix (· == '$')).eq_of_length hall
    have hcs : cs = List.replicate cs.length '$' := by
      refine List.eq_replicate_iff.mpr ⟨rfl, fun d hd => ?_⟩
      exact eq_of_beq (List.takeWhile_eq_self_iff.mp hself d (List.mem_reverse.mpr hd))
    have hc : c ≠ '$' := fun hc => h ⟨hc, hcs⟩
    simp [hc, hself]
  next => rfl

/-- A character in front makes a difference only where it begins a token. -/
theorem declares_cons_iff (hname : IsName p.name after)
    (h : placeholder? (c :: (before ++ (p.name ++ after))) = none) :
    Declares (c :: before) p after ↔ Declares before p after := by
  have hmarks : ∀ multiple, c :: before ≠ (Placeholder.mk p.name multiple).marks := by
    intro multiple heq
    have hsome : placeholder? ((Placeholder.mk p.name multiple).token ++ after) =
        some (⟨p.name, multiple⟩, after) :=
      placeholder?_eq_some_iff.mpr ⟨rfl, hname⟩
    rw [Placeholder.token, List.append_assoc, ← heq, List.cons_append, h] at hsome
    cases hsome
  by_cases hall : c = '$' ∧ before = List.replicate before.length '$'
  · obtain ⟨rfl, hbefore⟩ := hall
    generalize before.length = k at hbefore
    subst hbefore
    have hzero : k ≠ 0 := by
      rintro rfl
      exact hmarks false rfl
    have htwo : k ≠ 2 := by
      rintro rfl
      exact hmarks true rfl
    have hcons : dollars ('$' :: List.replicate k '$') = k + 1 := dollars_replicate (k + 1)
    apply declares_congr <;> rw [hcons, dollars_replicate] <;> omega
  · exact declares_congr_of_eq (dollars_cons hall)

/-- A place that begins no placeholder changes nothing of what the text behind it declares. -/
theorem declaredAt_cons (h : placeholder? (c :: rest) = none) :
    DeclaredAt (c :: rest) n p ↔ ∃ m, n = m + 1 ∧ DeclaredAt rest m p := by
  constructor
  · rintro ⟨before, after, hcs, rfl, hdeclares⟩
    cases before with
    | nil => exact absurd hdeclares.dollar (by decide)
    | cons b before =>
        obtain ⟨rfl, rfl⟩ := List.cons.inj hcs
        exact ⟨before.length, rfl, before, after, rfl, rfl,
          (declares_cons_iff hdeclares.toIsName h).mp hdeclares⟩
  · rintro ⟨_, rfl, before, after, rfl, rfl, hdeclares⟩
    exact ⟨c :: before, after, rfl, rfl, (declares_cons_iff hdeclares.toIsName h).mpr hdeclares⟩

theorem eq_dollar_of_mem_marks (h : c ∈ p.marks) : c = '$' := by
  rw [Placeholder.marks] at h
  split at h <;> simpa using h

theorem dollars_marks (p : Placeholder) : dollars p.marks = p.marks.length := by
  rw [Placeholder.marks]
  split <;> rfl

theorem multiple_iff_marks (p : Placeholder) : p.multiple = true ↔ 3 ≤ p.marks.length := by
  rw [Placeholder.marks]
  split <;> simp [*]

theorem declares_marks (h : IsName p.name after) : Declares p.marks p after where
  toIsName := h
  dollar := by
    rw [dollars_marks, Placeholder.marks]
    split <;> simp
  multiple := by rw [dollars_marks, multiple_iff_marks]

/-- Behind the marks of a token stands its name, in its form. -/
theorem eq_of_declares_marks (h : IsName p.name after) (hdeclares : Declares p.marks q rest)
    (heq : q.name ++ rest = p.name ++ after) : q = p := by
  obtain ⟨hname, -⟩ := hdeclares.toIsName.unique h heq
  have hmultiple : q.multiple = p.multiple := by
    rw [Bool.eq_iff_iff, hdeclares.multiple, multiple_iff_marks, dollars_marks]
  cases p
  cases q
  cases hname
  cases hmultiple
  rfl

/-- No dollar sign directly precedes what follows a part of a name. -/
theorem dollars_of_capitals (hne : cs ≠ []) (hcs : ∀ c ∈ cs, isCapital c = true) (before after : List Char) :
    dollars (before ++ cs ++ after) = dollars after := by
  apply dollars_append
  intro c hc
  rw [List.getLast?_append_of_ne_nil before hne] at hc
  exact ne_dollar_of_isCapital (hcs c (List.mem_of_getLast? hc))

/-- A token declares its placeholder, and beside it nothing is declared but by the text behind it. -/
theorem declaredAt_token (h : IsName p.name after) : DeclaredAt (p.token ++ after) n q ↔
    (n = p.marks.length ∧ q = p) ∨ ∃ m, n = p.token.length + m ∧ DeclaredAt after m q := by
  have htoken : ∀ {gap q after'}, Declares (p.token ++ gap) q after' ↔ Declares gap q after' :=
    declares_congr_of_eq (dollars_of_capitals h.nonempty h.capitals p.marks _)
  constructor
  · rintro ⟨before, after', hcs, rfl, hdeclares⟩
    rw [Placeholder.token, List.append_assoc] at hcs
    rcases List.append_eq_append_iff.mp hcs with ⟨more, rfl, hmore⟩ | ⟨more, hmarks, hmore⟩
    · rcases List.append_eq_append_iff.mp hmore with ⟨gap, rfl, rfl⟩ | ⟨tail, hname, htail⟩
      · -- the name begins behind the token
        rw [← List.append_assoc, ← Placeholder.token] at hdeclares ⊢
        exact .inr ⟨gap.length, List.length_append, gap, after', rfl, rfl, htoken.mp hdeclares⟩
      · -- the name begins inside the name of the token
        cases more with
        | nil =>
            rw [List.nil_append] at hname
            rw [List.append_nil] at hdeclares ⊢
            exact .inl ⟨rfl, eq_of_declares_marks h hdeclares (hname ▸ htail)⟩
        | cons c more =>
            have hcapitals : ∀ d ∈ c :: more, isCapital d = true := fun d hd =>
              h.capitals d (hname ▸ List.mem_append_left tail hd)
            have hnone := dollars_of_capitals (List.cons_ne_nil c more) hcapitals p.marks []
            rw [List.append_nil] at hnone
            exact absurd (hnone ▸ hdeclares.dollar) (by decide)
    · -- the name begins inside the marks of the token
      cases more with
      | nil =>
          rw [List.append_nil] at hmarks
          rw [← hmarks] at hdeclares ⊢
          exact .inl ⟨rfl, eq_of_declares_marks h hdeclares hmore⟩
      | cons c more =>
          obtain ⟨d, tail, hname, hd⟩ := hdeclares.toIsName.exists_cons
          rw [hname] at hmore
          have hdollar : c = '$' := eq_dollar_of_mem_marks (p := p) (by rw [hmarks]; simp)
          exact absurd ((List.cons.inj hmore).1.trans hdollar) hd
  · rintro (⟨rfl, rfl⟩ | ⟨_, rfl, before, after', rfl, rfl, hdeclares⟩)
    · exact ⟨_, after, List.append_assoc .., rfl, declares_marks h⟩
    · exact ⟨p.token ++ before, after', (List.append_assoc ..).symm, List.length_append,
        htoken.mpr hdeclares⟩

/-! ## Sites -/

/-- The placeholders behind `n` characters, each with the number of characters before its name. -/
def sitesFrom (n : Nat) : List (Placeholder × List Char) → List (Nat × Placeholder)
  | [] => []
  | (p, after) :: holes =>
    (n + p.marks.length, p) :: sitesFrom (n + p.token.length + after.length) holes

/-- The placeholders of a template, each with the number of characters before its name. -/
def sites (t : Template) : List (Nat × Placeholder) := sitesFrom t.lead.length t.holes

theorem mem_sitesFrom {k : Nat} {holes : List (Placeholder × List Char)} :
    (n, p) ∈ sitesFrom (k + m) holes ↔ ∃ i, n = k + i ∧ (i, p) ∈ sitesFrom m holes := by
  induction holes generalizing m with
  | nil => simp [sitesFrom]
  | cons hole holes ih =>
      obtain ⟨q, after⟩ := hole
      simp only [sitesFrom, List.mem_cons, Prod.mk.injEq, Nat.add_assoc k, ih]
      constructor
      · rintro (⟨rfl, rfl⟩ | ⟨i, rfl, hi⟩)
        · exact ⟨_, rfl, .inl ⟨rfl, rfl⟩⟩
        · exact ⟨i, rfl, .inr hi⟩
      · rintro ⟨i, rfl, ⟨rfl, rfl⟩ | hi⟩
        · exact .inl ⟨rfl, rfl⟩
        · exact .inr ⟨i, rfl, hi⟩

/-- **The sites of a text are the places where it declares placeholders.** -/
theorem mem_sites_scan (cs : List Char) : (n, p) ∈ (scan cs).sites ↔ DeclaredAt cs n p := by
  induction cs using scan.induct generalizing n p with
  | case1 =>
      rw [scan_nil]
      refine ⟨fun hnil => absurd hnil List.not_mem_nil, ?_⟩
      rintro ⟨before, after, hcs, -, hdeclares⟩
      have hnil := (List.append_eq_nil_iff.mp hcs.symm).2
      exact absurd (List.append_eq_nil_iff.mp hnil).1 hdeclares.nonempty
  | case2 c rest q after h ih =>
      obtain ⟨htoken, hname⟩ := placeholder?_eq_some_iff.mp h
      rw [scan_of_some h, htoken, declaredAt_token hname]
      simp only [← ih, sites, sitesFrom, List.mem_cons, Prod.mk.injEq, List.length_nil, Nat.zero_add,
        mem_sitesFrom]
  | case3 c rest h ih =>
      rw [scan_of_none h, declaredAt_cons h]
      simp only [← ih, sites, List.length_cons, Nat.add_comm _ 1, mem_sitesFrom]

theorem le_of_mem_sitesFrom {holes : List (Placeholder × List Char)} {site : Nat × Placeholder}
    (h : site ∈ sitesFrom n holes) : n + site.2.marks.length ≤ site.1 := by
  induction holes generalizing n with
  | nil => cases h
  | cons hole holes ih =>
      obtain ⟨p, after⟩ := hole
      rcases List.mem_cons.mp h with rfl | h
      · exact Nat.le_refl _
      · have := ih h
        omega

/-- Sites stand from left to right, and their tokens are apart. -/
theorem pairwise_sites (t : Template) :
    t.sites.Pairwise fun a b => a.1 + a.2.name.length + b.2.marks.length ≤ b.1 := by
  rw [sites]
  generalize t.lead.length = n
  induction t.holes generalizing n with
  | nil => exact .nil
  | cons hole holes ih =>
      obtain ⟨p, after⟩ := hole
      refine List.pairwise_cons.mpr ⟨fun site hsite => ?_, ih _⟩
      have hle := le_of_mem_sitesFrom hsite
      have htoken : p.token.length = p.marks.length + p.name.length := List.length_append
      show n + p.marks.length + p.name.length + site.2.marks.length ≤ site.1
      omega

theorem map_snd_sites (t : Template) : t.sites.map Prod.snd = t.placeholders := by
  rw [sites, placeholders]
  generalize t.lead.length = n
  induction t.holes generalizing n with
  | nil => rfl
  | cons hole holes ih => rw [sitesFrom, List.map_cons, ih, List.map_cons]

theorem replicate_suffix_of_le (h : n ≤ dollars before) : List.replicate n '$' <:+ before := by
  have hrun : before.reverse.takeWhile (· == '$') = List.replicate (dollars before) '$' := by
    refine List.eq_replicate_iff.mpr ⟨rfl, fun c hc => ?_⟩
    have hdollar := List.mem_takeWhile_imp hc
    exact eq_of_beq hdollar
  have hprefix : List.replicate n '$' <+: before.reverse := by
    have hle : List.replicate n '$' <+: List.replicate (dollars before) '$' :=
      ⟨List.replicate (dollars before - n) '$', by
        rw [List.replicate_append_replicate, Nat.add_sub_cancel' h]⟩
    exact hle.trans (hrun ▸ List.takeWhile_prefix _)
  rw [← List.reverse_prefix, List.reverse_replicate]
  exact hprefix

/-- The token of a site stands where its name does. -/
theorem exists_token_of_declaredAt (h : DeclaredAt cs n p) :
    ∃ before after, cs = before ++ (p.token ++ after) ∧ before.length + p.marks.length = n := by
  obtain ⟨before, after, rfl, rfl, hdeclares⟩ := h
  have hsuffix : p.marks <:+ before := by
    have hdollar := hdeclares.dollar
    have hmultiple := hdeclares.multiple
    rw [Placeholder.marks]
    split
    next hm => exact replicate_suffix_of_le (hmultiple.mp hm)
    next => exact replicate_suffix_of_le hdollar
  obtain ⟨front, rfl⟩ := hsuffix
  exact ⟨front, after, by simp [Placeholder.token], by simp⟩

/-! ## One cut for all -/

/-- A text that is read is the template with the values in the place of its placeholders. -/
theorem Reads.eq_flatMap {holes : List (Placeholder × List Char)} {text : List Char}
    {values : List (List Char)} (h : Reads holes text values) :
    text = (values.zip holes).flatMap fun (value, _, after) => value ++ after := by
  induction h with
  | nil => rfl
  | cons _ _ ih => rw [List.zip_cons_cons, List.flatMap_cons, ← ih, List.append_assoc]

/-- The template cuts the text at its placeholders: at those that the text declares and nowhere else. -/
structure Cuts (cs : List Char) (t : Template) : Prop where
  declared : ∀ n p, (n, p) ∈ t.sites ↔ DeclaredAt cs n p
  /-- Sites stand from left to right, the token of one behind the name of the other. -/
  apart : t.sites.Pairwise fun a b => a.1 + a.2.name.length + b.2.marks.length ≤ b.1
  tokens : ∀ n p, (n, p) ∈ t.sites →
    ∃ before after, cs = before ++ (p.token ++ after) ∧ before.length + p.marks.length = n
  listed : t.placeholders = t.sites.map Prod.snd
  /-- The pieces between the placeholders and the tokens are the text, -/
  text : cs = t.lead ++ t.holes.flatMap fun (p, after) => p.token ++ after
  /-- a text that matches has a value in the place of each token, -/
  values : ∀ text values, t.match? text = some values → values.length = t.holes.length ∧
    text = t.lead ++ (values.zip t.holes).flatMap fun (value, _, after) => value ++ after
  /-- and so has what is substituted. -/
  filled : ∀ vars, t.substitute vars = t.lead ++ t.holes.flatMap fun (p, after) => fill vars p ++ after

/-- **Cutting a pattern accepts exactly the grammar of placeholders**, and listing, matching and
substituting all go by the one cut. -/
theorem ofString_cuts (pattern : String) : Cuts pattern.toList (ofString pattern) where
  declared _ _ := mem_sites_scan pattern.toList
  apart := pairwise_sites _
  tokens _ _ h := exists_token_of_declaredAt ((mem_sites_scan pattern.toList).mp h)
  listed := (map_snd_sites _).symm
  text := (text_ofString pattern).symm
  values text values h := by
    obtain ⟨rest, rfl, hreads⟩ := (match?_eq_some_iff.mp h).1
    exact ⟨hreads.length_eq, by rw [← hreads.eq_flatMap]⟩
  filled _ := rfl

example : (ofString "$$$$ARGS $A$$Bé $$C").sites =
    [(4, ⟨['A', 'R', 'G', 'S'], true⟩), (10, ⟨['A'], false⟩), (18, ⟨['C'], false⟩)] := by
  decide +kernel

end CodeSweep.Template
