import CodeSweep.Proofs.Ordered
import CodeSweep.Proofs.Template.Reading
import Mathlib.Data.List.Nodup

/-! # Variables in the place of placeholders

When a text matches, a name is bound to the value of the first placeholder of that name whose value is
not empty (`lookup_extract`). So where a template's names are distinct, each of its placeholders is
filled with what it stands for, or left as it is written where it stands for nothing (`fill_extract`). -/

namespace CodeSweep.Template

variable {t : Template} {text : List Char} {values : List (List Char)} {p : Placeholder}
  {value : List Char}

/-- What the placeholders of a template stand for in a text, in order of appearance. There is nothing when
the text does not match. -/
def captured (t : Template) (text : List Char) : List (Placeholder × List Char) :=
  t.placeholders.zip ((t.match? text).getD [])

theorem captured_of_none (h : t.match? text = none) : t.captured text = [] := by
  rw [captured, h]
  exact List.zip_nil_right

theorem captured_of_some (h : t.match? text = some values) :
    t.captured text = t.placeholders.zip values := by
  rw [captured, h]
  rfl

theorem Reads.length_eq {holes : List (Placeholder × List Char)} (h : Reads holes text values) :
    values.length = holes.length := by
  induction h with
  | nil => rfl
  | cons _ _ ih => rw [List.length_cons, List.length_cons, ih]

theorem length_of_match? (h : t.match? text = some values) :
    values.length = t.placeholders.length := by
  obtain ⟨rest, -, hreads⟩ := (match?_eq_some_iff.mp h).1
  rw [hreads.length_eq, placeholders, List.length_map]

theorem map_fst_captured (h : t.match? text = some values) :
    (t.captured text).map Prod.fst = t.placeholders := by
  rw [captured_of_some h]
  exact List.map_fst_zip (Nat.le_of_eq (length_of_match? h).symm)

/-! ## Bindings -/

theorem lookup_bindOnce (vars : Bindings) (name : String) :
    (bindOnce text vars p value).lookup name = (vars.lookup name).or
      (if nameOf p = name ∧ value ≠ [] then some (bound text p value) else none) := by
  rw [bindOnce]
  split
  next h =>
    rw [Bool.or_eq_true, List.isEmpty_iff, Option.isSome_iff_exists] at h
    split
    next hbind =>
      obtain ⟨old, hold⟩ := h.resolve_left hbind.2
      rw [← hbind.1, hold]
      rfl
    next => rw [Option.or_none]
  next h =>
    rw [Bool.or_eq_true, not_or, List.isEmpty_iff, Option.not_isSome_iff_eq_none] at h
    rw [Ordered.lookup_bind]
    split
    next hname => rw [hname, h.2, if_pos ⟨rfl, h.1⟩, Option.none_or]
    next hname => rw [if_neg fun hbind => hname hbind.1.symm, Option.or_none]

theorem extract_eq : t.extract text =
    (t.captured text).foldl (fun vars (p, value) => bindOnce text vars p value) [] := by
  rw [extract]
  split
  next hholes => rw [captured, placeholders, List.isEmpty_iff.mp hholes]; rfl
  next =>
    split
    next hnone => rw [captured_of_none hnone]; rfl
    next values hsome => rw [captured_of_some hsome]

/-- A name is bound to the first value of its placeholders that is not empty. -/
theorem lookup_extract (name : String) : (t.extract text).lookup name =
    ((t.captured text).find? fun c => nameOf c.1 = name ∧ c.2 ≠ []).map
      fun c => bound text c.1 c.2 := by
  have hfold : ∀ vars : Bindings,
      ((t.captured text).foldl (fun vars (p, value) => bindOnce text vars p value) vars).lookup name =
        (vars.lookup name).or (((t.captured text).find? fun c => nameOf c.1 = name ∧ c.2 ≠ []).map
          fun c => bound text c.1 c.2) := by
    induction t.captured text with
    | nil => simp
    | cons c more ih =>
        obtain ⟨p, value⟩ := c
        intro vars
        rw [List.foldl_cons, ih, lookup_bindOnce, Option.or_assoc, List.find?_cons]
        by_cases hbind : nameOf p = name ∧ value ≠ [] <;> simp [hbind]
  rw [extract_eq, hfold]
  rfl

/-! ## Distinct names -/

/-- What a placeholder of a template stands for in a text. -/
def capture (t : Template) (text : List Char) (p : Placeholder) : List Char :=
  (((t.captured text).find? (·.1 = p)).map (·.2)).getD []

/-- What is written for a placeholder: what it stands for, and its token where that is nothing. -/
def written (t : Template) (text : List Char) (p : Placeholder) : List Char :=
  if t.capture text p = [] then p.token else t.capture text p

section Distinct

variable (hnames : (t.placeholders.map (·.name)).Nodup)

include hnames

/-- Two captures under one name are one. -/
theorem captured_inj {other : Placeholder × List Char} (hmem : (p, value) ∈ t.captured text)
    (hother : other ∈ t.captured text) (hname : nameOf other.1 = nameOf p) : other = (p, value) := by
  have hnodup : ((t.captured text).map (Placeholder.name ∘ Prod.fst)).Nodup := by
    cases hmatch : t.match? text with
    | none => simp [captured_of_none hmatch]
    | some values =>
        rw [← List.map_map, map_fst_captured hmatch]
        exact hnames
  exact List.inj_on_of_nodup_map hnodup hother hmem (String.ofList_injective hname)

/-- A test that only one name passes finds the capture under that name or none. -/
theorem find?_captured {test : Placeholder × List Char → Bool} (hmem : (p, value) ∈ t.captured text)
    (htest : ∀ c, test c = true → nameOf c.1 = nameOf p) :
    (t.captured text).find? test = if test (p, value) then some (p, value) else none := by
  cases hfind : (t.captured text).find? test with
  | none => rw [if_neg (List.find?_eq_none.mp hfind _ hmem)]
  | some other =>
      have hfound : test other = true := List.find?_some hfind
      have hother := captured_inj hnames hmem (List.mem_of_find?_eq_some hfind) (htest other hfound)
      rw [hother] at hfound ⊢
      rw [if_pos hfound]

/-- A placeholder is filled with what it stands for, and left as it is written where that is nothing. -/
theorem fill_extract (hmem : (p, value) ∈ t.captured text) :
    fill (t.extract text) p = if value = [] then p.token else value := by
  rw [fill, lookup_extract, find?_captured hnames hmem fun c hc => (of_decide_eq_true hc).1]
  by_cases hvalue : value = []
  · simp [hvalue]
  · simp [hvalue, bound]

theorem capture_of_mem (hmem : (p, value) ∈ t.captured text) : t.capture text p = value := by
  have htest : ∀ c : Placeholder × List Char, decide (c.1 = p) = true → nameOf c.1 = nameOf p :=
    fun c hc => congrArg nameOf (of_decide_eq_true hc)
  rw [capture, find?_captured hnames hmem htest]
  simp

theorem map_capture (h : t.match? text = some values) : t.placeholders.map (t.capture text) = values := by
  have hcapture : (t.captured text).map (t.capture text ∘ Prod.fst) = (t.captured text).map Prod.snd :=
    List.map_congr_left fun _ hmem => capture_of_mem hnames hmem
  rw [← map_fst_captured h, List.map_map, hcapture, captured_of_some h]
  exact List.map_snd_zip (Nat.le_of_eq (length_of_match? h))

/-- A placeholder of the template is filled as it should be written. -/
theorem fill_of_mem (hmem : p ∈ t.placeholders) : fill (t.extract text) p = t.written text p := by
  cases h : t.match? text with
  | none =>
      have hcaptured := captured_of_none h
      rw [extract_eq, written, capture, hcaptured]
      rfl
  | some values =>
      rw [← map_fst_captured h, List.mem_map] at hmem
      obtain ⟨⟨p, value⟩, hmem, rfl⟩ := hmem
      rw [fill_extract hnames hmem, written, capture_of_mem hnames hmem]

end Distinct

/-! ## Templates -/

/-- The text of a template with something in the place of each placeholder. -/
def put (t : Template) (f : Placeholder → List Char) : List Char :=
  t.lead ++ t.holes.flatMap fun (p, after) => f p ++ after

theorem text_eq_put (t : Template) : t.text = t.put Placeholder.token := rfl

theorem substitute_eq_put (t : Template) (vars : Bindings) : t.substitute vars = t.put (fill vars) := rfl

theorem put_congr {f g : Placeholder → List Char} (h : ∀ p ∈ t.placeholders, f p = g p) :
    t.put f = t.put g := by
  rw [put, put]
  congr 1
  apply List.flatMap_congr
  rintro ⟨p, after⟩ hmem
  show f p ++ after = g p ++ after
  rw [h p (List.mem_map_of_mem hmem)]

/-- A text that matches is the template with what its placeholders stand for. -/
theorem put_captured {f : Placeholder → List Char} (h : t.match? text = some values)
    (hf : ∀ p value, (p, value) ∈ t.captured text → f p = value) : t.put f = text := by
  obtain ⟨rest, rfl, hreads⟩ := (match?_eq_some_iff.mp h).1
  rw [captured_of_some h, placeholders] at hf
  clear h
  rw [put]
  congr 1
  generalize t.holes = holes at hreads hf
  induction hreads with
  | nil => rfl
  | @cons p after holes value rest values _ _ ih =>
      rw [List.map_cons, List.zip_cons_cons] at hf
      rw [List.flatMap_cons, ih fun q v hmem => hf q v (List.mem_cons_of_mem _ hmem)]
      show f p ++ after ++ rest = value ++ (after ++ rest)
      rw [hf p value List.mem_cons_self, List.append_assoc]

end CodeSweep.Template
