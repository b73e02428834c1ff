import CodeSweep.Text.WordChar

/-!
# Placeholders

A template is text with placeholders in it: `$NAME` stands for some text and `$$$NAME` for text
that may be empty. A name is a run of ASCII capitals that a word character does not continue; any
other dollar sign is plain text.

`scan` cuts a template into the text before the first placeholder and, for each placeholder, the
text after it. Matching and substitution both work on that one cut.
-/

namespace CodeSweep

/-- A placeholder: its name, and whether it may stand for nothing. -/
structure Placeholder where
  name : List Char
  multiple : Bool
deriving DecidableEq, Inhabited

namespace Placeholder

/-- The dollar signs in front of the name. -/
def marks (p : Placeholder) : List Char := if p.multiple then ['$', '$', '$'] else ['$']

/-- The placeholder as it is written. -/
def token (p : Placeholder) : List Char := p.marks ++ p.name

end Placeholder

/-- A template, cut at its placeholders: `lead` comes first, and each placeholder is followed by
the text up to the next one. -/
structure Template where
  lead : List Char
  holes : List (Placeholder × List Char)
deriving DecidableEq, Inhabited

namespace Template

/-- Whether a character can stand in a placeholder's name. -/
def isCapital (c : Char) : Bool := 'A' ≤ c && c ≤ 'Z'

/-- Whether a name ends where `rest` begins. -/
def endsName : List Char → Bool
  | [] => true
  | c :: _ => !Text.isWordChar c

/-- The name at the front of the text, and what follows it. -/
def name? (cs : List Char) : Option (List Char × List Char) :=
  let name := cs.takeWhile isCapital
  let rest := cs.dropWhile isCapital
  if name.isEmpty || !endsName rest then none else some (name, rest)

/-- The placeholder at the front of the text, and what follows it. Three dollar signs in front of a
name are read before one. -/
def placeholder? : List Char → Option (Placeholder × List Char)
  | '$' :: '$' :: '$' :: cs => (name? cs).map fun (name, rest) => (⟨name, true⟩, rest)
  | '$' :: cs => (name? cs).map fun (name, rest) => (⟨name, false⟩, rest)
  | _ => none

/-- Dropping never lengthens. -/
theorem length_dropWhile_le (p : Char → Bool) (cs : List Char) :
    (cs.dropWhile p).length ≤ cs.length :=
  (List.dropWhile_suffix p).length_le

/-- What follows a name is no longer than what it was read from. -/
theorem length_of_name? {cs name rest : List Char} (h : name? cs = some (name, rest)) :
    rest.length ≤ cs.length := by
  simp only [name?] at h
  split at h
  · simp at h
  · cases h
    exact length_dropWhile_le isCapital cs

/-- What follows a placeholder is shorter than what it was read from. -/
theorem length_of_placeholder? {cs rest : List Char} {p : Placeholder}
    (h : placeholder? cs = some (p, rest)) : rest.length < cs.length := by
  unfold placeholder? at h
  split at h
  · obtain ⟨⟨name, rest'⟩, hn, he⟩ := Option.map_eq_some_iff.1 h
    cases he
    have := length_of_name? hn
    simp only [List.length_cons]
    omega
  · obtain ⟨⟨name, rest'⟩, hn, he⟩ := Option.map_eq_some_iff.1 h
    cases he
    have := length_of_name? hn
    simp only [List.length_cons]
    omega
  · simp at h

/-- Cuts a text at its placeholders, left to right. -/
def scan (cs : List Char) : Template :=
  match cs with
  | [] => ⟨[], []⟩
  | c :: rest =>
    match _h : placeholder? (c :: rest) with
    | some (p, after) =>
      let t := scan after
      ⟨[], (p, t.lead) :: t.holes⟩
    | none =>
      let t := scan rest
      ⟨c :: t.lead, t.holes⟩
termination_by cs.length
decreasing_by
  · exact length_of_placeholder? (by assumption)
  · simp

/-- Cuts a text at its placeholders. -/
def ofString (s : String) : Template := scan s.toList

/-- The text a template was cut from. -/
def text (t : Template) : List Char :=
  t.lead ++ t.holes.flatMap fun (p, after) => p.token ++ after

/-- The placeholders in order of appearance. -/
def placeholders (t : Template) : List Placeholder := t.holes.map (·.1)

end Template

end CodeSweep
