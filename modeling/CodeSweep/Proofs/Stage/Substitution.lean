import CodeSweep.Proofs.Ordered
import CodeSweep.Proofs.Stage.Placeholders
import CodeSweep.Proofs.Template.Grammar

/-! # Substitution in one pass

What is put in the place of a token may look like a token itself. `Substitutes` says what may become of a
text: any token that it declares is replaced, and the text before the token and the text behind it are
dealt with on their own, so that nothing that was written is read again. There is one outcome, whichever
token comes first, and filling in the variables gives it (`filled_onePass`).

It is the outcome of one cut because a text may be cut before and behind any token that it declares
(`put_scan_around`): no name goes on over a dollar sign (`isName_append_token`). -/

namespace CodeSweep.Template

variable {c : Char} {cs out before after rest name new : List Char} {p : Placeholder}
  {vars : Bindings} {f : Placeholder → List Char}

/-! ## The text around a token -/

theorem exists_token_eq_cons (p : Placeholder) : ∃ tail, p.token = '$' :: tail := by
  rw [Placeholder.token, Placeholder.marks]
  split <;> exact ⟨_, rfl⟩

theorem isName_append_token : IsName name (before ++ (p.token ++ after)) ↔ IsName name before := by
  have hhead : ∀ q : Char → Bool, q '$' = false →
      ((∀ c ∈ (before ++ (p.token ++ after)).head?, q c = false) ↔ ∀ c ∈ before.head?, q c = false) := by
    intro q hq
    obtain ⟨tail, htoken⟩ := exists_token_eq_cons p
    cases before with
    | nil => simp [htoken, hq]
    | cons b before => rfl
  have hmaximal := hhead isCapital (by decide)
  have hboundary := hhead Text.isWordChar (by decide +kernel)
  constructor
  · rintro ⟨hne, hcapitals, hmax, hbound⟩
    exact ⟨hne, hcapitals, hmaximal.mp hmax, hboundary.mp hbound⟩
  · rintro ⟨hne, hcapitals, hmax, hbound⟩
    exact ⟨hne, hcapitals, hmaximal.mpr hmax, hboundary.mpr hbound⟩

/-- Where no placeholder begins, none begins when the text is cut off before a token. -/
theorem placeholder?_of_append_token (h : placeholder? (before ++ (p.token ++ after)) = none) :
    placeholder? before = none := by
  cases hbefore : placeholder? before with
  | none => rfl
  | some found =>
      obtain ⟨q, rest⟩ := found
      obtain ⟨rfl, hname⟩ := placeholder?_eq_some_iff.mp hbefore
      have hsome : placeholder? (q.token ++ rest ++ (p.token ++ after)) =
          some (q, rest ++ (p.token ++ after)) :=
        placeholder?_eq_some_iff.mpr ⟨List.append_assoc .., isName_append_token.mpr hname⟩
      cases h.symm.trans hsome

/-- A declared token ends where its name does. -/
theorem isName_of_declaredAt (h : DeclaredAt (p.token ++ after) p.marks.length p) : IsName p.name after := by
  obtain ⟨before, rest, hcs, hlength, hdeclares⟩ := h
  rw [Placeholder.token, List.append_assoc] at hcs
  have hname := (List.append_inj hcs hlength.symm).2
  rw [List.append_cancel_left hname]
  exact hdeclares.toIsName

/-! ## Cutting around a token -/

theorem put_scan_token (h : IsName p.name rest) :
    (scan (p.token ++ rest)).put f = f p ++ (scan rest).put f := by
  obtain ⟨tail, htoken⟩ := exists_token_eq_cons p
  have hsome : placeholder? ('$' :: (tail ++ rest)) = some (p, rest) :=
    placeholder?_eq_some_iff.mpr ⟨by rw [htoken, List.cons_append], h⟩
  rw [htoken, List.cons_append, scan_of_some hsome]
  exact List.append_assoc ..

theorem put_scan_cons (h : placeholder? (c :: rest) = none) :
    (scan (c :: rest)).put f = c :: (scan rest).put f := by
  rw [scan_of_none h]
  rfl

/-- A text that declares nothing is plain. -/
theorem put_scan_of_plain (h : ∀ n p, ¬ DeclaredAt cs n p) : (scan cs).put f = cs := by
  have hnone : ∀ p ∈ (scan cs).placeholders, f p = p.token := by
    intro p hp
    rw [← map_snd_sites, List.mem_map] at hp
    obtain ⟨⟨n, _⟩, hsite, rfl⟩ := hp
    exact absurd ((mem_sites_scan cs).mp hsite) (h n _)
  rw [put_congr hnone, ← text_eq_put, text_scan]

/-- What is put in the place of a declared token stands between what the text before it and the text
behind it become on their own. -/
theorem put_scan_around
    (h : DeclaredAt (before ++ (p.token ++ after)) (before.length + p.marks.length) p) :
    (scan (before ++ (p.token ++ after))).put f = (scan before).put f ++ (f p ++ (scan after).put f) := by
  generalize hcs : before ++ (p.token ++ after) = cs at h ⊢
  induction cs using scan.induct generalizing before with
  | case1 =>
      obtain ⟨tail, htoken⟩ := exists_token_eq_cons p
      simp [htoken] at hcs
  | case2 c rest q rest' hq ih =>
      obtain ⟨htoken, hname⟩ := placeholder?_eq_some_iff.mp hq
      rw [htoken] at h hcs ⊢
      rw [put_scan_token hname]
      rcases (declaredAt_token hname).mp h with ⟨hlength, rfl⟩ | ⟨m, hlength, hlater⟩
      · -- the token is the one at the front
        obtain rfl : before = [] := List.length_eq_zero_iff.mp (by omega)
        have hrest : after = rest' := List.append_cancel_left hcs
        rw [hrest, scan_nil]
        rfl
      · -- the token in front stands before it
        obtain ⟨between, after', rfl, hm⟩ := exists_token_of_declaredAt hlater
        have hlen : before.length = (q.token ++ between).length := by
          rw [List.length_append]
          omega
        rw [← List.append_assoc q.token] at hcs
        obtain ⟨rfl, hafter⟩ := List.append_inj hcs hlen
        rw [← hm] at hlater
        rw [ih (congrArg _ hafter) hlater, put_scan_token, List.append_assoc]
        exact isName_append_token.mp hname
  | case3 c rest hnone ih =>
      rw [put_scan_cons hnone]
      cases before with
      | nil =>
          rw [← hcs, List.nil_append, List.length_nil, Nat.zero_add] at h
          have hsome := placeholder?_eq_some_iff.mpr ⟨rfl, isName_of_declaredAt h⟩
          rw [List.nil_append] at hcs
          rw [hcs, hnone] at hsome
          cases hsome
      | cons b before =>
          obtain ⟨rfl, rfl⟩ := List.cons.inj hcs
          obtain ⟨m, hm, hlater⟩ := (declaredAt_cons hnone).mp h
          obtain rfl : before.length + p.marks.length = m := by
            rw [List.length_cons] at hm
            omega
          rw [put_scan_cons (placeholder?_of_append_token hnone), ih rfl hlater]
          rfl

/-! ## What becomes of a text -/

/-- What is written for a placeholder: the value of the variable of its name, if that was bound by the same
token, and otherwise the token as it stands. -/
inductive Writes (vars : Bindings) (p : Placeholder) : List Char → Prop
  | value {v : Variable} (bound : (nameOf p, v) ∈ vars) (same : v.placeholder.token = p.token) :
      Writes vars p v.value
  | token (other : ∀ v, (nameOf p, v) ∈ vars → v.placeholder.token ≠ p.token) : Writes vars p p.token

/-- What may become of a text. Text that declares nothing stays as it is; and any token that is declared
may be the next one to be replaced, what stands on either side of it being dealt with on its own. -/
inductive Substitutes (vars : Bindings) : List Char → List Char → Prop
  | plain {cs : List Char} (nothing : ∀ n p, ¬ DeclaredAt cs n p) : Substitutes vars cs cs
  | token {before after front new back : List Char} {p : Placeholder}
      (declared : DeclaredAt (before ++ (p.token ++ after)) (before.length + p.marks.length) p)
      (written : Writes vars p new) (left : Substitutes vars before front)
      (right : Substitutes vars after back) :
      Substitutes vars (before ++ (p.token ++ after)) (front ++ (new ++ back))

/-- What is to be written does not depend on how the variables are listed. -/
theorem Writes.of_perm {order : Bindings} (horder : order.Perm vars) (h : Writes order p new) :
    Writes vars p new := by
  cases h with
  | value hbound hsame => exact .value (horder.mem_iff.mp hbound) hsame
  | token hother => exact .token fun v hv => hother v (horder.mem_iff.mpr hv)

section Names

variable (hvars : (vars.map Prod.fst).Nodup)

include hvars

theorem writes_iff : Writes vars p new ↔ fill vars p = new := by
  have hlookup : ∀ v, vars.lookup (nameOf p) = some v ↔ (nameOf p, v) ∈ vars :=
    fun v => Ordered.lookup_eq_some_iff_mem hvars
  rw [fill]
  constructor
  · rintro (⟨hbound, hsame⟩ | hother)
    · rw [(hlookup _).mpr hbound]
      exact if_pos hsame
    · split
      next v hv => exact if_neg (hother v ((hlookup v).mp hv))
      next => rfl
  · rintro rfl
    split
    next v hv =>
      split
      next hsame => exact .value ((hlookup v).mp hv) hsame
      next hsame =>
        refine .token fun other hother => ?_
        cases hv.symm.trans ((hlookup other).mpr hother)
        exact hsame
    next hnone =>
      refine .token fun v hv => ?_
      cases hnone.symm.trans ((hlookup v).mpr hv)

theorem writes_fill : Writes vars p (fill vars p) := (writes_iff hvars).mpr rfl

/-- Whichever token is replaced first, the outcome is that of the one cut. -/
theorem put_of_substitutes (h : Substitutes vars cs out) : (scan cs).put (fill vars) = out := by
  induction h with
  | plain nothing => exact put_scan_of_plain nothing
  | token declared written _ _ ihleft ihright =>
      rw [put_scan_around declared, ihleft, ihright, (writes_iff hvars).mp written]

theorem substitutes_put (cs : List Char) : Substitutes vars cs ((scan cs).put (fill vars)) := by
  induction hlength : cs.length using Nat.strongRecOn generalizing cs with
  | _ k ih =>
      by_cases hsome : ∃ n p, DeclaredAt cs n p
      · obtain ⟨n, p, hdeclared⟩ := hsome
        obtain ⟨before, after, rfl, rfl⟩ := exists_token_of_declaredAt hdeclared
        obtain ⟨tail, htoken⟩ := exists_token_eq_cons p
        have hsides : before.length < k ∧ after.length < k := by
          rw [← hlength, htoken]
          simp only [List.length_append, List.length_cons]
          omega
        rw [put_scan_around hdeclared]
        exact .token hdeclared (writes_fill hvars) (ih _ hsides.1 before rfl) (ih _ hsides.2 after rfl)
      · have hplain : ∀ n p, ¬ DeclaredAt cs n p := fun n p h => hsome ⟨n, p, h⟩
        rw [put_scan_of_plain hplain]
        exact .plain hplain

theorem substitutes_iff : Substitutes vars cs out ↔ (scan cs).substitute vars = out := by
  rw [substitute_eq_put]
  constructor
  · exact put_of_substitutes hvars
  · rintro rfl
    exact substitutes_put hvars cs

theorem fill_perm {order : Bindings} (horder : order.Perm vars) : fill order = fill vars := by
  have hnames : (order.map Prod.fst).Nodup := (horder.map Prod.fst).nodup_iff.mpr hvars
  funext p
  exact ((writes_iff hvars).mp ((writes_fill hnames).of_perm horder)).symm

end Names

end CodeSweep.Template

namespace CodeSweep.Stage

open Template

/-- **Variables are filled in all at once.** What becomes of a template is its outcome whichever token is
replaced first; it is the pieces of the template with what is to be written in the place of each token;
and the order of the variables does not show. -/
theorem filled_onePass (vars : Bindings) (hvars : (vars.map Prod.fst).Nodup) :
    (∀ template result : String,
      filled vars template = result ↔ Substitutes vars template.toList result.toList) ∧
    (∃ written : Placeholder → List Char, (∀ p, Writes vars p (written p)) ∧ ∀ template : String,
      template = String.ofList ((ofString template).put Placeholder.token) ∧
      filled vars template = String.ofList ((ofString template).put written)) ∧
    ∀ order : Bindings, order.Perm vars → ∀ template, filled order template = filled vars template := by
  refine ⟨fun template result => ?_, ⟨fill vars, fun p => writes_fill hvars, fun template => ⟨?_, ?_⟩⟩, ?_⟩
  · rw [substitutes_iff hvars, filled_eq, ofString]
    constructor
    · rintro rfl
      exact String.toList_ofList.symm
    · intro hresult
      rw [hresult, String.ofList_toList]
  · rw [← text_eq_put, text_ofString, String.ofList_toList]
  · rw [filled_eq, substitute_eq_put]
  · intro order horder template
    rw [filled_eq, filled_eq, substitute_eq_put, substitute_eq_put, fill_perm hvars horder]

/-- Variables whose values are each other's tokens. -/
def swapped : Bindings :=
  [("A", ⟨⟨['A'], false⟩, "$$$B".toList, 0, 4⟩), ("B", ⟨⟨['B'], true⟩, "$A".toList, 7, 9⟩)]

/-- A token of another form is left alone, and filling in one variable after the other would make two
values the same. -/
theorem filled_onePass_swapped :
    (swapped.map Prod.fst).Nodup ∧
    filled swapped "$A + $$$B + $B$A" = "$$$B + $A + $B$$$B" ∧
    Substitutes swapped "$A + $$$B + $B$A".toList "$$$B + $A + $B$$$B".toList ∧
    filled swapped.reverse "$A + $$$B + $B$A" = "$$$B + $A + $B$$$B" ∧
    Text.replaceAll (Text.replaceAll "$A + $$$B + $B$A" "$A" "$$$B") "$$$B" "$A" = "$A + $A + $B$A" := by
  have hvars : (swapped.map Prod.fst).Nodup := by decide
  obtain ⟨houtcome, -, horder⟩ := filled_onePass swapped hvars
  have hfilled : filled swapped "$A + $$$B + $B$A" = "$$$B + $A + $B$$$B" := by decide +kernel
  refine ⟨hvars, hfilled, (houtcome _ _).mp hfilled, ?_, by decide +kernel⟩
  rw [horder _ (List.reverse_perm swapped), hfilled]

end CodeSweep.Stage
