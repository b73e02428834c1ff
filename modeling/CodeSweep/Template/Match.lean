import CodeSweep.Template.Placeholder
import CodeSweep.Text.Search
import CodeSweep.Ordered

/-!
# Matching a text against a template

A text matches a template when it is the template's own text with each placeholder replaced by some
value, a non-empty one where the placeholder is single. Of all such readings the one whose values
are shortest, the first value first, is taken.

No search is needed for it: a value ends at the first place where the text after its placeholder
occurs, since any later place leaves the following values less room. Only the last value is
different, because what follows it has to end the text.
-/

namespace CodeSweep.Template

/-- The least number of characters a placeholder stands for. -/
def leastLength (p : Placeholder) : Nat := if p.multiple then 0 else 1

/-- The shortest piece of at least `least` characters that `next` follows, and what comes after
`next`. -/
def shortest? (least : Nat) (next cs : List Char) : Option (List Char × List Char) :=
  if cs.length < least then none
  else (Text.splitFirst? next (cs.drop least)).map fun (value, rest) => (cs.take least ++ value, rest)

/-- The values of the placeholders, when the text can be read so. -/
def values? : List (Placeholder × List Char) → List Char → Option (List (List Char))
  | [], cs => if cs.isEmpty then some [] else none
  | [(p, after)], cs =>
    match Text.dropEnding? after cs with
    | some value => if value.length < leastLength p then none else some [value]
    | none => none
  | (p, after) :: next :: holes, cs =>
    match shortest? (leastLength p) after cs with
    | some (value, rest) => (values? (next :: holes) rest).map (value :: ·)
    | none => none

/-- The values of the template's placeholders in the text, in order of appearance. -/
def match? (t : Template) (text : List Char) : Option (List (List Char)) :=
  if t.lead.isPrefixOf text then values? t.holes (text.drop t.lead.length) else none

end CodeSweep.Template

namespace CodeSweep

/-- A placeholder bound to a piece of a text. `start` and `stop` count characters, and `start` is
where `value` first occurs. -/
structure Variable where
  placeholder : Placeholder
  value : List Char
  start : Nat
  stop : Nat
deriving DecidableEq, Inhabited

/-- Variables by name. -/
abbrev Bindings := List (String × Variable)

namespace Template

/-- The name of a placeholder as text. -/
def nameOf (p : Placeholder) : String := String.ofList p.name

/-- The variable that binds `p` to `value` in `text`. -/
def bound (text : List Char) (p : Placeholder) (value : List Char) : Variable :=
  let start := ((Text.splitFirst? value text).map (·.1.length)).getD 0
  { placeholder := p, value, start, stop := start + value.length }

/-- Binds the placeholder unless its value is empty or its name is bound already. -/
def bindOnce (text : List Char) (vars : Bindings) (p : Placeholder) (value : List Char) : Bindings :=
  if value.isEmpty || (vars.lookup (nameOf p)).isSome then vars
  else Ordered.bind (nameOf p) (bound text p value) vars

/-- The variables of the template in a text. Without placeholders, or when the text does not match,
there are none. -/
def extract (t : Template) (text : List Char) : Bindings :=
  if t.holes.isEmpty then []
  else
    match t.match? text with
    | none => []
    | some values =>
      (t.placeholders.zip values).foldl (fun vars (p, value) => bindOnce text vars p value) []

/-- What stands for a placeholder: the value of the variable of that name, if it was bound by the same
token, else the placeholder as it is written. -/
def fill (vars : Bindings) (p : Placeholder) : List Char :=
  match vars.lookup (nameOf p) with
  | some v => if v.placeholder.token = p.token then v.value else p.token
  | none => p.token

/-- The template's text with the variables filled in, all at once. -/
def substitute (t : Template) (vars : Bindings) : List Char :=
  t.lead ++ t.holes.flatMap fun (p, after) => fill vars p ++ after

end Template

end CodeSweep
