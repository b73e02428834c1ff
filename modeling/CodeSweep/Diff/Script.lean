import CodeSweep.Diff.Block

/-!
# Comparing lines

The comparison strips what both sides share at their start and end, splits the rest where a
shortest edit path passes its middle, and goes on with the two halves. The middle is found by
searching forward from the start and backward from the end at once, one edit more in each round.

A split counts only if it makes both halves smaller, so the comparison always ends; and whatever the
split, the blocks spell out both sides.
-/

namespace CodeSweep.Diff

/-- The furthest old-side position reached on each diagonal; diagonals run from `-reach` on. -/
structure Frontier where
  reach : Nat
  furthest : Array Nat

namespace Frontier

/-- Nothing reached yet. -/
def empty (reach : Nat) : Frontier := ⟨reach, Array.replicate (2 * reach + 2) 0⟩

/-- The furthest position on a diagonal. -/
def get (f : Frontier) (k : Int) : Nat := f.furthest.getD (k + f.reach).toNat 0

/-- Records the furthest position on a diagonal. -/
def set (f : Frontier) (k : Int) (x : Nat) : Frontier :=
  { f with furthest := f.furthest.setIfInBounds (k + f.reach).toNat x }

/-- Where round `d` enters diagonal `k`: from the diagonal below if that got further, else from the
one above. -/
def enter (f : Frontier) (d : Nat) (k : Int) : Nat :=
  if k = -(d : Int) ∨ (k ≠ d ∧ f.get (k - 1) < f.get (k + 1)) then f.get (k + 1)
  else f.get (k - 1) + 1

end Frontier

/-- The diagonals of round `d`, from above to below. -/
def diagonals (d : Nat) : List Int := (List.range (d + 1)).map fun (i : Nat) => (d : Int) - 2 * i

/-- How many lines from position `x` on one side and `y` on the other are equal. -/
def advance (old new : Array String) (x y : Nat) : Nat :=
  if h : x < old.size ∧ y < new.size then
    if old[x] = new[y] then advance old new (x + 1) (y + 1) + 1 else 0
  else 0
termination_by old.size - x

/-- One side's search in one round: enters each diagonal, follows the equal lines and reports the
place of entry and the place reached to `meets`, which says whether the two searches met. -/
def sweep (old new : Array String) (d : Nat) (meets : Int → Nat → Bool) :
    List Int → Frontier → Frontier × Option (Int × Nat × Nat)
  | [], f => (f, none)
  | k :: ks, f =>
    let x := f.enter d k
    let y := ((x : Int) - k).toNat
    let reached := if x < old.size ∧ y < new.size then x + advance old new x y else x
    let f := f.set k reached
    if meets k reached then (f, some (k, x, reached)) else sweep old new d meets ks f

/-- Rounds of forward and backward search until the two meet; `rounds` are left to try. -/
def search (old new oldBack newBack : Array String) :
    (rounds d : Nat) → Frontier → Frontier → Option (Nat × Nat)
  | 0, _, _, _ => none
  | rounds + 1, d, forward, backward =>
    let n := old.size
    let m := new.size
    let delta := (n : Int) - m
    let odd := delta % 2 ≠ 0
    let meetsBackward (k : Int) (x : Nat) : Bool :=
      odd ∧ (k - delta).natAbs + 1 ≤ d ∧ n ≤ x + backward.get (-(k - delta))
    match sweep old new d meetsBackward (diagonals d) forward with
    | (_, some (k, x, _)) => some (x, ((x : Int) - k).toNat)
    | (forward, none) =>
      let meetsForward (k : Int) (x : Nat) : Bool :=
        ¬odd ∧ (k - delta).natAbs ≤ d ∧ n ≤ x + forward.get (-(k - delta))
      match sweep oldBack newBack d meetsForward (diagonals d) backward with
      | (_, some (k, _, x)) => some (n - x, m - ((x : Int) - k).toNat)
      | (backward, none) => search old new oldBack newBack rounds (d + 1) forward backward

/-- Where a shortest edit path from `old` to `new` passes its middle: how many lines of either side
lie before it. -/
def middle? (old new : List String) : Option (Nat × Nat) :=
  let rounds := (old.length + new.length + 1) / 2 + 1
  search old.toArray new.toArray old.reverse.toArray new.reverse.toArray rounds 0
    (.empty (rounds + 1)) (.empty (rounds + 1))

/-- A block of lines both sides have, unless there are none. -/
def equalBlock (ls : List String) : List Block := if ls.isEmpty then [] else [.equal ls]

/-- The number of lines the two sides share at their end, after what they share at their start. -/
def endShared (old new : List String) : Nat :=
  let start := commonStart old new
  commonEnd (old.drop start) (new.drop start)

/-- The lines of `side` between what it shares with the other side at the start and at the end. -/
def inner (start stop : Nat) (side : List String) : List String :=
  (side.drop start).take (side.length - start - stop)

/-- The inner lines are not more than all lines. -/
theorem length_inner_le (start stop : Nat) (side : List String) :
    (inner start stop side).length ≤ side.length := by
  simp only [inner, List.length_take, List.length_drop]
  omega

/-- The blocks that turn `old` into `new`. -/
def script (old new : List String) : List Block :=
  let start := commonStart old new
  let stop := endShared old new
  let core :=
    match _ho : inner start stop old, _hn : inner start stop new with
    | [], [] => []
    | o :: os, [] => [Block.delete (o :: os)]
    | [], n :: ns => [Block.insert (n :: ns)]
    | o :: os, n :: ns =>
      match middle? (o :: os) (n :: ns) with
      | none => [Block.delete (o :: os), Block.insert (n :: ns)]
      | some (x, y) =>
        if _h : 0 < min x (o :: os).length + min y (n :: ns).length ∧
            min x (o :: os).length + min y (n :: ns).length < (o :: os).length + (n :: ns).length then
          script ((o :: os).take x) ((n :: ns).take y) ++
            script ((o :: os).drop x) ((n :: ns).drop y)
        else [Block.delete (o :: os), Block.insert (n :: ns)]
  equalBlock (old.take start) ++ core ++ equalBlock (old.drop (old.length - stop))
termination_by old.length + new.length
decreasing_by
  all_goals
    have ho := length_inner_le (commonStart old new) (endShared old new) old
    have hn := length_inner_le (commonStart old new) (endShared old new) new
    rw [_ho] at ho
    rw [_hn] at hn
    simp only [List.length_take, List.length_drop]
    omega

end CodeSweep.Diff
