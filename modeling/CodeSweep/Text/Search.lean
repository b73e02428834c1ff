/-!
# Searching and splitting

Everything here works on lists of characters and reads from the left: the first occurrence counts,
and what was consumed once is not looked at again.
-/

namespace CodeSweep.Text

/-- What stands before and after the first occurrence of `needle`. -/
def splitFirst? (needle : List Char) : List Char → Option (List Char × List Char)
  | [] => if needle.isEmpty then some ([], []) else none
  | c :: cs =>
    if needle.isPrefixOf (c :: cs) then some ([], (c :: cs).drop needle.length)
    else (splitFirst? needle cs).map fun p => (c :: p.1, p.2)

/-- What stands before and after the last occurrence of the character `sep`. -/
def splitLast? (sep : Char) : List Char → Option (List Char × List Char)
  | [] => none
  | c :: cs =>
    match splitLast? sep cs with
    | some (before, after) => some (c :: before, after)
    | none => if c = sep then some ([], cs) else none

/-- The pieces between the occurrences of `sep`: one more than there are occurrences. -/
def pieces (sep : Char) : List Char → List (List Char)
  | [] => [[]]
  | c :: cs =>
    if c = sep then [] :: pieces sep cs
    else
      match pieces sep cs with
      | [] => [[c]]
      | p :: ps => (c :: p) :: ps

theorem not_mem_of_mem_pieces {sep : Char} {cs piece : List Char} (h : piece ∈ pieces sep cs) :
    sep ∉ piece := by
  induction cs generalizing piece with
  | nil => simp_all [pieces]
  | cons c cs ih =>
    rw [pieces] at h
    split at h
    next =>
      rcases List.mem_cons.mp h with rfl | h
      · simp
      · exact ih h
    next hc =>
      split at h
      next => simp_all [Ne.symm hc]
      next p ps hps =>
        rcases List.mem_cons.mp h with rfl | h
        · simp [ih (hps ▸ List.mem_cons_self), Ne.symm hc]
        · exact ih (hps ▸ List.mem_cons_of_mem p h)

theorem pieces_ne_nil (sep : Char) (cs : List Char) : pieces sep cs ≠ [] := by
  cases cs with
  | nil => simp [pieces]
  | cons c cs =>
    rw [pieces]
    split
    · simp
    · split <;> simp

/-- The pieces after a separator follow those before it. -/
theorem pieces_append {sep : Char} (l rest : List Char) :
    pieces sep (l ++ sep :: rest) = pieces sep l ++ pieces sep rest := by
  induction l with
  | nil => simp [pieces]
  | cons c cs ih =>
    rw [List.cons_append, pieces, pieces]
    split
    · rw [ih, List.cons_append]
    · obtain ⟨p, ps, hp⟩ := List.exists_cons_of_ne_nil (pieces_ne_nil sep cs)
      rw [ih, hp]
      rfl

theorem pieces_of_not_mem {sep : Char} {l : List Char} (hl : sep ∉ l) : pieces sep l = [l] := by
  induction l with
  | nil => rfl
  | cons c cs ih =>
    have hc : c ≠ sep := fun h => hl (by simp [h])
    have hcs : sep ∉ cs := fun h => hl (by simp [h])
    rw [pieces, if_neg hc, ih hcs]

theorem pieces_append_sep {sep : Char} {l : List Char} (hl : sep ∉ l) (rest : List Char) :
    pieces sep (l ++ sep :: rest) = l :: pieces sep rest := by
  rw [pieces_append, pieces_of_not_mem hl, List.singleton_append]

/-- Whether `needle` occurs in the text. -/
def contains (needle : List Char) (cs : List Char) : Bool := (splitFirst? needle cs).isSome

/-- Whether `needle` occurs in the text. -/
def holds (text needle : String) : Bool := contains needle.toList text.toList

/-- Replaces the non-overlapping occurrences of a non-empty `needle`, left to right. The number
says how many characters of the last occurrence are still to be skipped. -/
def replaceFrom (needle new : List Char) : Nat → List Char → List Char
  | _, [] => []
  | skip + 1, _ :: cs => replaceFrom needle new skip cs
  | 0, c :: cs =>
    if needle.isPrefixOf (c :: cs) then new ++ replaceFrom needle new (needle.length - 1) cs
    else c :: replaceFrom needle new 0 cs

/-- Replaces every occurrence of `needle`; the empty needle occurs before, between and after all
characters. -/
def replaceAll (text needle new : String) : String :=
  let cs := text.toList
  let fresh := new.toList
  String.ofList <|
    match needle.toList with
    | [] => fresh ++ cs.flatMap fun c => c :: fresh
    | n :: ns => replaceFrom (n :: ns) fresh 0 cs

/-- The text without `ending`, when it ends so. -/
def dropEnding? (ending cs : List Char) : Option (List Char) :=
  if ending.isSuffixOf cs then some (cs.take (cs.length - ending.length)) else none

/-- Equality up to the case of ASCII letters. -/
def sameIgnoringCase (a b : String) : Bool :=
  a.toList.map Char.toLower == b.toList.map Char.toLower

end CodeSweep.Text
