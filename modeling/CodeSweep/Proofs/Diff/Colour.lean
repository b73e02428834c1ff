import CodeSweep.Proofs.Diff.Faithful
import CodeSweep.Proofs.Text.Search

/-! # Colours are decoration

A coloured diff is the plain one with colour codes put in between (`render_painted`). Where the texts and
the path hold no escape character, each code can be found again: it begins at an escape character, it has
no other one, and no code is the beginning of another (`not_prefix_of_ne`). So deleting the codes, in any
order, gives the plain diff (`erase_colours`). -/

namespace CodeSweep.Diff

variable {codes : List String} {code : String} {painted plain cs rest : List Char}

/-- The character that begins a colour code. -/
def escape : Char := '\x1b'

/-- The codes that a coloured diff can hold. -/
def colourCodes : List String :=
  [Mark.colour .deleted, Mark.colour .inserted, Mark.colour .header, resetColour]

/-- The text without the codes, which are deleted one after the other. -/
def eraseAll (codes : List String) (s : String) : String :=
  codes.foldl (fun s code => Text.replaceAll s code "") s

/-- A text without escape characters. -/
def IsPlain (s : String) : Prop := escape ∉ s.toList

instance (s : String) : Decidable (IsPlain s) := inferInstanceAs (Decidable (escape ∉ s.toList))

theorem IsPlain.append {s t : String} (hs : IsPlain s) (ht : IsPlain t) : IsPlain (s ++ t) := by
  rw [IsPlain, String.toList_append, List.mem_append, not_or]
  exact ⟨hs, ht⟩

/-- `painted` is `plain` with some of the codes put in between. -/
inductive Painted (codes : List String) : List Char → List Char → Prop
  | nil : Painted codes [] []
  | char {c : Char} {painted plain : List Char} (hc : c ≠ escape) (rest : Painted codes painted plain) :
      Painted codes (c :: painted) (c :: plain)
  | code {code : String} {painted plain : List Char} (hcode : code ∈ codes)
      (rest : Painted codes painted plain) : Painted codes (code.toList ++ painted) plain

namespace Painted

theorem of_plain (h : escape ∉ cs) : Painted codes cs cs := by
  induction cs with
  | nil => exact .nil
  | cons c cs ih =>
      rw [List.mem_cons, not_or] at h
      exact .char (Ne.symm h.1) (ih h.2)

theorem append {painted' plain' : List Char} (h : Painted codes painted plain)
    (h' : Painted codes painted' plain') : Painted codes (painted ++ painted') (plain ++ plain') := by
  induction h with
  | nil => exact h'
  | char hc _ ih => exact .char hc ih
  | code hcode _ ih =>
      rw [List.append_assoc]
      exact .code hcode ih

theorem eq_of_nil (h : Painted [] painted plain) : painted = plain := by
  induction h with
  | nil => rfl
  | char _ _ ih => rw [ih]
  | code hcode => cases hcode

end Painted

/-! ## Deleting one code -/

/-- A colour code begins with its only escape character. -/
theorem exists_code (h : code ∈ colourCodes) : ∃ cs, code.toList = escape :: cs ∧ escape ∉ cs := by
  have hcodes : ∀ code ∈ colourCodes,
      code.toList = escape :: code.toList.tail ∧ escape ∉ code.toList.tail := by decide
  exact ⟨_, hcodes code h⟩

theorem not_prefix_of_ne {other : String} (hcode : code ∈ colourCodes) (hother : other ∈ colourCodes)
    (hne : code ≠ other) (rest : List Char) : ¬ code.toList <+: other.toList ++ rest := by
  have hcodes : ∀ code ∈ colourCodes, ∀ other ∈ colourCodes, code ≠ other →
      ¬ code.toList <+: other.toList := by decide
  intro h
  rcases List.prefix_or_prefix_of_prefix h (List.prefix_append other.toList rest) with h | h
  · exact hcodes code hcode other hother hne h
  · exact hcodes other hother code hcode hne.symm h

/-- To delete a code is to take it out everywhere. -/
theorem Painted.erase (hcode : code ∈ colourCodes) (hcodes : ∀ c ∈ codes, c ∈ colourCodes)
    (h : Painted codes painted plain) :
    Painted (codes.filter (· ≠ code)) (Text.replaceFrom code.toList [] 0 painted) plain := by
  obtain ⟨tail, htail, -⟩ := exists_code hcode
  induction h with
  | nil => exact .nil
  | @char c painted plain hc _ ih =>
      have hprefix : ¬ code.toList <+: c :: painted := by
        rw [htail, List.cons_prefix_cons]
        exact fun h => hc h.1.symm
      rw [Text.replaceFrom_of_not_prefix hprefix]
      exact .char hc ih
  | @code other painted plain hother _ ih =>
      by_cases hne : code = other
      · subst hne
        rw [Text.replaceFrom_append_self (by simp [htail]), List.nil_append]
        exact ih
      · obtain ⟨tail', htail', hplain⟩ := exists_code (hcodes other hother)
        have hprefix := not_prefix_of_ne hcode (hcodes other hother) hne painted
        have hkeep : Text.replaceFrom code.toList [] 0 (other.toList ++ painted) =
            other.toList ++ Text.replaceFrom code.toList [] 0 painted := by
          rw [htail', List.cons_append] at hprefix ⊢
          rw [Text.replaceFrom_of_not_prefix hprefix, htail, Text.replaceFrom_append_of_not_mem hplain,
            List.cons_append]
        rw [hkeep]
        exact .code (List.mem_filter.mpr ⟨hother, decide_eq_true (Ne.symm hne)⟩) ih

theorem Painted.replaceAll {s : String} (hcode : code ∈ colourCodes) (hcodes : ∀ c ∈ codes, c ∈ colourCodes)
    (h : Painted codes s.toList plain) :
    Painted (codes.filter (· ≠ code)) (Text.replaceAll s code "").toList plain := by
  have herase := h.erase hcode hcodes
  obtain ⟨tail, htail, -⟩ := exists_code hcode
  rw [Text.replaceAll, String.toList_ofList, htail]
  rwa [htail] at herase

/-- When all codes have been deleted, in whichever order, the plain text is left. -/
theorem Painted.eraseAll {order : List String} {s : String} (horder : ∀ c ∈ order, c ∈ colourCodes)
    (hcodes : ∀ c ∈ codes, c ∈ colourCodes) (hall : ∀ c ∈ codes, c ∈ order)
    (h : Painted codes s.toList plain) : (eraseAll order s).toList = plain := by
  induction order generalizing codes s with
  | nil =>
      obtain rfl : codes = [] := List.eq_nil_iff_forall_not_mem.mpr fun c hc => List.not_mem_nil (hall c hc)
      exact h.eq_of_nil
  | cons code order ih =>
      rw [List.forall_mem_cons] at horder
      refine ih horder.2 ?_ ?_ (h.replaceAll horder.1 hcodes)
      · intro c hc
        exact hcodes c (List.mem_filter.mp hc).1
      · intro c hc
        obtain ⟨hc, hne⟩ := List.mem_filter.mp hc
        exact (List.mem_cons.mp (hall c hc)).resolve_left (of_decide_eq_true hne)

/-! ## Coloured diffs -/

variable {l : DiffLine} {ls : List DiffLine}

theorem DiffLine.render_painted (h : IsPlain l.text) :
    Painted colourCodes (l.render true).toList (l.render false).toList := by
  have hsign : IsPlain l.mark.sign := by cases l.mark <;> decide
  have hshown : Painted colourCodes (l.mark.sign ++ l.text).toList (l.mark.sign ++ l.text).toList :=
    .of_plain (hsign.append h)
  have hpainted : Painted colourCodes
      (if true && l.mark != .kept then l.mark.colour ++ (l.mark.sign ++ l.text) ++ resetColour
        else l.mark.sign ++ l.text).toList (l.mark.sign ++ l.text).toList := by
    split
    next hmark =>
      have hcolour : l.mark.colour ∈ colourCodes := by
        cases hkept : l.mark with
        | kept => simp [hkept] at hmark
        | header | deleted | inserted => decide
      have hreset := hshown.append (.code (show resetColour ∈ colourCodes by decide) .nil)
      rw [List.append_nil, List.append_nil] at hreset
      rw [String.toList_append, String.toList_append, List.append_assoc]
      exact .code hcolour hreset
    next => exact hshown
  rw [DiffLine.render, DiffLine.render]
  split
  next =>
    rw [String.toList_append, String.toList_append]
    exact hpainted.append (.of_plain (by decide))
  next => exact hpainted

theorem renderLines_painted (h : ∀ l ∈ ls, IsPlain l.text) :
    Painted colourCodes (renderLines true ls).toList (renderLines false ls).toList := by
  induction ls with
  | nil => exact .nil
  | cons l ls ih =>
      rw [List.forall_mem_cons] at h
      rw [toList_renderLines_cons, toList_renderLines_cons]
      exact (DiffLine.render_painted h.1).append (ih h.2)

theorem intercalate_painted {α : Type} {f g : α → String} {sep : String} {xs : List α} (hsep : IsPlain sep)
    (h : ∀ x ∈ xs, Painted colourCodes (f x).toList (g x).toList) :
    Painted colourCodes (sep.intercalate (xs.map f)).toList (sep.intercalate (xs.map g)).toList := by
  induction xs with
  | nil => exact .nil
  | cons x xs ih =>
      rw [List.forall_mem_cons] at h
      cases xs with
      | nil => simpa using h.1
      | cons y ys =>
          simp only [List.map_cons, String.intercalate_cons_cons, String.toList_append] at ih ⊢
          exact (h.1.append (.of_plain hsep)).append (ih h.2)

theorem isPlain_of_mem_lines {s line : String} (h : IsPlain s) (hline : line ∈ lines s) : IsPlain line := by
  intro hmem
  apply h
  rw [← join_lines s, String.toList_join]
  exact List.mem_flatMap.mpr ⟨line, hline, hmem⟩

theorem render_painted {old new : String} {path : Path} (hold : IsPlain old) (hnew : IsPlain new)
    (hpath : IsPlain path.text) :
    Painted colourCodes (render true old new path).toList (render false old new path).toList := by
  have hheaders : ∀ l ∈ headers path, IsPlain l.text := by
    have hold : IsPlain ("--- a/" ++ path.text) := .append (by decide) hpath
    have hnew : IsPlain ("+++ b/" ++ path.text) := .append (by decide) hpath
    simp [headers, hold, hnew]
  have hlines : ∀ hunk ∈ hunkLines old new, ∀ l ∈ hunk, IsPlain l.text := by
    intro hunk hhunk l hl
    have hmem := (hunkLines_abridge old new).sublist.subset (List.mem_flatten_of_mem hhunk hl)
    rcases text_mem_of_mem_listing hmem with h | h
    · exact isPlain_of_mem_lines hold h
    · exact isPlain_of_mem_lines hnew h
  rw [render_eq, render_eq, String.toList_append, String.toList_append]
  refine (renderLines_painted hheaders).append (intercalate_painted ?_ ?_)
  · decide
  · exact fun hunk hhunk => renderLines_painted (hlines hunk hhunk)

/-- **Colour is only decoration.** Deleting the four codes, in any order, from the coloured diff of texts
without escape characters gives the plain diff, and likewise for the diffs of several results. -/
theorem erase_colours (order : List String) (horder : order.Perm colourCodes) :
    (∀ (old new : String) (path : Path), IsPlain old → IsPlain new → IsPlain path.text →
      eraseAll order (render true old new path) = render false old new path) ∧
    ∀ done : List FileDone,
      (∀ r ∈ done, r.changed = true → IsPlain r.old ∧ IsPlain r.content ∧ IsPlain r.path.text) →
      eraseAll order (ofResults true done) = ofResults false done := by
  have herase : ∀ painted plain : String, Painted colourCodes painted.toList plain.toList →
      eraseAll order painted = plain := by
    intro painted plain h
    rw [← String.toList_inj]
    exact h.eraseAll (fun c => horder.mem_iff.mp) (fun _ => id) (fun c => horder.mem_iff.mpr)
  constructor
  · intro old new path hold hnew hpath
    exact herase _ _ (render_painted hold hnew hpath)
  · intro done hdone
    apply herase
    apply intercalate_painted (by decide)
    intro r hr
    obtain ⟨hr, hchanged⟩ := List.mem_filter.mp hr
    obtain ⟨hold, hnew, hpath⟩ := hdone r hr hchanged
    exact render_painted hold hnew hpath

/-- A changed file whose lines look like codes, the last one without an ending, and an unchanged file that
holds an escape character. -/
def lookalikes : List FileDone :=
  [⟨⟨"web/f.ts"⟩, ⟨"web"⟩, "[31m\nold", "[31m\nnew\n", true⟩, ⟨⟨"web/g.ts"⟩, ⟨"web"⟩, "\x1b", "\x1b", false⟩]

theorem erase_colours_lookalikes :
    colourCodes.reverse.Perm colourCodes ∧
    (IsPlain "[31m\nold" ∧ IsPlain "[31m\nnew\n" ∧ IsPlain "web/f.ts") ∧
    eraseAll colourCodes.reverse (render true "[31m\nold" "[31m\nnew\n" ⟨"web/f.ts"⟩) =
      render false "[31m\nold" "[31m\nnew\n" ⟨"web/f.ts"⟩ ∧
    (∀ r ∈ lookalikes, r.changed = true → IsPlain r.old ∧ IsPlain r.content ∧ IsPlain r.path.text) ∧
    eraseAll colourCodes.reverse (ofResults true lookalikes) = ofResults false lookalikes := by
  have horder : colourCodes.reverse.Perm colourCodes := List.reverse_perm _
  have hplain : ∀ r ∈ lookalikes,
      r.changed = true → IsPlain r.old ∧ IsPlain r.content ∧ IsPlain r.path.text := by decide
  refine ⟨horder, by decide, ?_, hplain, ?_⟩
  · exact (erase_colours _ horder).1 _ _ _ (by decide) (by decide) (by decide)
  · exact (erase_colours _ horder).2 _ hplain

end CodeSweep.Diff
