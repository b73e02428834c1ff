/-!
# Ordered collections

Sets and maps that are listed in order of their keys: lists that are strictly increasing under a
comparison. Putting in a key that is already there replaces it.
-/

namespace CodeSweep.Ordered

/-- Puts `x` in its place; an equal element makes room for it. -/
def insert {α : Type} (cmp : α → α → Ordering) (x : α) : List α → List α
  | [] => [x]
  | y :: ys =>
    match cmp x y with
    | .lt => x :: y :: ys
    | .eq => x :: ys
    | .gt => y :: insert cmp x ys

/-- The elements in order, each once; of equal ones the last stays. -/
def ofList {α : Type} (cmp : α → α → Ordering) (xs : List α) : List α :=
  xs.foldl (fun set x => insert cmp x set) []

/-- Compares pairs by their first component. -/
def byKey {β : Type} (a b : String × β) : Ordering := compare a.1 b.1

/-- Binds a name; a binding that was there is replaced. -/
def bind {β : Type} (name : String) (value : β) (map : List (String × β)) : List (String × β) :=
  insert byKey (name, value) map

/-- Names in order, each once. -/
def names (xs : List String) : List String := ofList compare xs

end CodeSweep.Ordered
