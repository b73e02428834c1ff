import CodeSweep.Diff.Block

/-!
# Compacting

Inserted and deleted lines can often stand in more than one place. Each deletion and then each
insertion is moved up as far as it goes and down again: it merges with its own kind, passes the
other kind, and an insertion moves over equal lines that it could as well have inserted itself.

The block being moved is the focus of a list that is held as what comes before it, nearest first,
and what comes after it.
-/

namespace CodeSweep.Diff

/-- A block list around the block that is being moved. -/
structure Focus where
  before : List Block
  block : Block
  after : List Block

/-- A measure of blocks: their lines, and one for each block. -/
def weight : List Block → Nat
  | [] => 0
  | b :: bs => b.lines.length + 1 + weight bs

/-- The block list with equal lines put in front; they join an equal block that stands there. -/
def growStart (ls : List String) : List Block → List Block
  | .equal ms :: bs => .equal (ls ++ ms) :: bs
  | bs => .equal ls :: bs

/-- The block list, nearest first, with equal lines put nearest; they join an equal block that
stands there. -/
def growEnd (ls : List String) : List Block → List Block
  | .equal ms :: bs => .equal (ms ++ ls) :: bs
  | bs => .equal ls :: bs

/-- The block list without a leading equal block that has no lines. -/
def dropEmpty (ls : List String) (bs : List Block) : List Block :=
  if ls.isEmpty then bs else .equal ls :: bs

/-- Dropping the empty block does not add weight. -/
theorem weight_dropEmpty_le (ls : List String) (bs : List Block) :
    weight (dropEmpty ls bs) ≤ weight (.equal ls :: bs) := by
  unfold dropEmpty
  split
  · simp [weight]
  · exact Nat.le_refl _

/-- Moves the focus up as far as it goes. -/
def moveUp (before : List Block) (block : Block) (after : List Block) : Focus :=
  match before with
  | [] => ⟨[], block, after⟩
  | .equal ls :: rest =>
    match block with
    | .insert new =>
      let n := commonEnd ls new
      if _h : 0 < min n ls.length then
        let moved := ls.drop (ls.length - n)
        let kept := ls.take (ls.length - n)
        moveUp (dropEmpty kept rest) (.insert (moved ++ new.take (new.length - n)))
          (growStart moved after)
      else if ls.isEmpty then moveUp rest block after
      else ⟨.equal ls :: rest, block, after⟩
    | _ => if ls.isEmpty then moveUp rest block after else ⟨.equal ls :: rest, block, after⟩
  | .delete ls :: rest =>
    match block with
    | .delete ms => moveUp rest (.delete (ls ++ ms)) after
    | _ => moveUp rest block (.delete ls :: after)
  | .insert ls :: rest =>
    match block with
    | .insert ms => moveUp rest (.insert (ls ++ ms)) after
    | _ => moveUp rest block (.insert ls :: after)
termination_by weight before
decreasing_by
  · refine Nat.lt_of_le_of_lt (weight_dropEmpty_le _ _) ?_
    simp only [weight, Block.lines, List.length_take]
    omega
  all_goals simp [weight]

/-- Moves the focus down as far as it goes. -/
def moveDown (before : List Block) (block : Block) (after : List Block) : Focus :=
  match after with
  | [] => ⟨before, block, []⟩
  | .equal ls :: rest =>
    match block with
    | .insert new =>
      let n := commonStart ls new
      if _h : 0 < min n ls.length then
        let moved := ls.take n
        let kept := ls.drop n
        moveDown (growEnd moved before) (.insert (new.drop n ++ moved)) (dropEmpty kept rest)
      else if ls.isEmpty then moveDown before block rest
      else ⟨before, block, .equal ls :: rest⟩
    | _ => if ls.isEmpty then moveDown before block rest else ⟨before, block, .equal ls :: rest⟩
  | .delete ls :: rest =>
    match block with
    | .delete ms => moveDown before (.delete (ms ++ ls)) rest
    | _ => moveDown (.delete ls :: before) block rest
  | .insert ls :: rest =>
    match block with
    | .insert ms => moveDown before (.insert (ms ++ ls)) rest
    | _ => moveDown (.insert ls :: before) block rest
termination_by weight after
decreasing_by
  · refine Nat.lt_of_le_of_lt (weight_dropEmpty_le _ _) ?_
    simp only [weight, Block.lines, List.length_drop]
    omega
  all_goals simp [weight]

/-- Moves every block that `movable` picks, left to right: up, then down, then on with the block
after it. `before` is nearest first. A move leaves fewer blocks to pick, since what it meets of its
own kind it takes along. -/
def settle (movable : Block → Bool) (before after : List Block) : List Block :=
  match after with
  | [] => before.reverse
  | b :: rest =>
    if movable b then
      let up := moveUp before b rest
      let down := moveDown up.before up.block up.after
      if _h : down.after.countP movable < (b :: rest).countP movable then
        settle movable (down.block :: down.before) down.after
      else (down.block :: down.before).reverse ++ down.after
    else settle movable (b :: before) rest
termination_by (after.countP movable, after.length)
decreasing_by
  · exact Prod.Lex.left _ _ (by assumption)
  · rw [List.countP_cons_of_neg (by assumption)]
    exact Prod.Lex.right _ (by simp)

/-- Whether the block is a deletion. -/
def Block.isDelete : Block → Bool
  | .delete _ => true
  | _ => false

/-- Whether the block is an insertion. -/
def Block.isInsert : Block → Bool
  | .insert _ => true
  | _ => false

/-- Moves all deletions, then all insertions. -/
def compact (bs : List Block) : List Block :=
  settle Block.isInsert [] (settle Block.isDelete [] bs)

end CodeSweep.Diff
