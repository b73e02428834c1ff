import CodeSweep.Template.Placeholder

/-! # Cutting a template at its placeholders

Nothing is lost when a text is cut at its placeholders: put together again, the pieces and the tokens
are the text (`text_scan`). -/

namespace CodeSweep.Template

variable {cs rest after : List Char} {c : Char} {p : Placeholder}

theorem append_of_name? {name : List Char} (h : name? cs = some (name, rest)) : cs = name ++ rest := by
  obtain ⟨-, hpair⟩ := Option.ite_none_left_eq_some.mp h
  cases hpair
  exact List.takeWhile_append_dropWhile.symm

theorem append_of_placeholder? (h : placeholder? cs = some (p, rest)) : cs = p.token ++ rest := by
  unfold placeholder? at h
  split at h
  next tail =>
    obtain ⟨⟨name, rest'⟩, hname, hpair⟩ := Option.map_eq_some_iff.mp h
    cases hpair
    rw [append_of_name? hname]
    rfl
  next tail _ =>
    obtain ⟨⟨name, rest'⟩, hname, hpair⟩ := Option.map_eq_some_iff.mp h
    cases hpair
    rw [append_of_name? hname]
    rfl
  next => cases h

/-! ### Unfolding `scan` -/

theorem scan_nil : scan [] = ⟨[], []⟩ := by rw [scan]

theorem scan_of_some (h : placeholder? (c :: rest) = some (p, after)) :
    scan (c :: rest) = ⟨[], (p, (scan after).lead) :: (scan after).holes⟩ := by
  rw [scan]
  split
  next heq =>
    rw [h] at heq
    cases heq
    rfl
  next heq =>
    rw [h] at heq
    cases heq

theorem scan_of_none (h : placeholder? (c :: rest) = none) :
    scan (c :: rest) = ⟨c :: (scan rest).lead, (scan rest).holes⟩ := by
  rw [scan]
  split
  next heq =>
    rw [h] at heq
    cases heq
  next => rfl

theorem text_scan (cs : List Char) : (scan cs).text = cs := by
  induction cs using scan.induct with
  | case1 => rw [scan_nil]; rfl
  | case2 c rest p after h ih =>
      calc (scan (c :: rest)).text
          = p.token ++ (scan after).text := by rw [scan_of_some h]; simp [text]
        _ = p.token ++ after := by rw [ih]
        _ = c :: rest := (append_of_placeholder? h).symm
  | case3 c rest h ih =>
      rw [scan_of_none h]
      show c :: (scan rest).text = c :: rest
      rw [ih]

/-- A text is the template that is cut from it. -/
theorem text_ofString (s : String) : (ofString s).text = s.toList := text_scan s.toList

end CodeSweep.Template
