import CodeSweep.Diff.Compact
import CodeSweep.Diff.Script

/-! # Both sides of a comparison

    old, new ──script──▶ blocks ──compact──▶ blocks

The blocks of a comparison spell out the old lines on one side and the new lines on the other
(`script_spells`). Compacting moves and joins blocks, and each single move keeps what the two sides
spell (`moveUp_keeps`, `moveDown_keeps`): a deletion and an insertion pass each other, since no
line stands on both of them, and an insertion passes equal lines only where it ends, or begins, in the
same lines. -/

namespace CodeSweep.Diff

variable {old new ls ms : List String} {b block : Block} {as bs before after : List Block}

/-! ## What two lists share -/

theorem commonStart_le (as bs : List String) :
    commonStart as bs ≤ as.length ∧ commonStart as bs ≤ bs.length := by
  fun_induction commonStart as bs with
  | case1 a as bs ih => exact ⟨Nat.succ_le_succ ih.1, Nat.succ_le_succ ih.2⟩
  | case2 | case3 => exact ⟨Nat.zero_le _, Nat.zero_le _⟩

theorem take_commonStart (as bs : List String) :
    as.take (commonStart as bs) = bs.take (commonStart as bs) := by
  fun_induction commonStart as bs with
  | case1 a as bs ih => rw [List.take_succ_cons, List.take_succ_cons, ih]
  | case2 | case3 => rfl

theorem commonStart_self (as : List String) : commonStart as as = as.length := by
  induction as with
  | nil => rfl
  | cons a as ih => rw [commonStart, if_pos rfl, ih, List.length_cons]

theorem commonEnd_le (as bs : List String) :
    commonEnd as bs ≤ as.length ∧ commonEnd as bs ≤ bs.length := by
  have h := commonStart_le as.reverse bs.reverse
  rwa [List.length_reverse, List.length_reverse] at h

theorem drop_commonEnd (as bs : List String) :
    as.drop (as.length - commonEnd as bs) = bs.drop (bs.length - commonEnd as bs) := by
  rw [← List.reverse_inj, ← List.take_reverse, ← List.take_reverse]
  exact take_commonStart as.reverse bs.reverse

/-! ## Sides of block lists -/

@[simp] theorem oldSide_nil : oldSide [] = [] := rfl

@[simp] theorem newSide_nil : newSide [] = [] := rfl

@[simp] theorem oldSide_cons : oldSide (b :: bs) = b.oldLines ++ oldSide bs := rfl

@[simp] theorem newSide_cons : newSide (b :: bs) = b.newLines ++ newSide bs := rfl

@[simp] theorem oldSide_append : oldSide (as ++ bs) = oldSide as ++ oldSide bs := List.flatMap_append

@[simp] theorem newSide_append : newSide (as ++ bs) = newSide as ++ newSide bs := List.flatMap_append

namespace Block

@[simp] theorem oldLines_equal : (equal ls).oldLines = ls := rfl

@[simp] theorem oldLines_delete : (delete ls).oldLines = ls := rfl

@[simp] theorem oldLines_insert : (insert ls).oldLines = [] := rfl

@[simp] theorem newLines_equal : (equal ls).newLines = ls := rfl

@[simp] theorem newLines_delete : (delete ls).newLines = [] := rfl

@[simp] theorem newLines_insert : (insert ls).newLines = ls := rfl

end Block

/-- The blocks spell out `old` on the old side and `new` on the new side. -/
structure Spells (bs : List Block) (old new : List String) : Prop where
  old : oldSide bs = old
  new : newSide bs = new

/-- Two block lists spell the same on both sides. -/
def SameSides (as bs : List Block) : Prop := Spells as (oldSide bs) (newSide bs)

namespace SameSides

theorem refl (bs : List Block) : SameSides bs bs := ⟨rfl, rfl⟩

theorem trans {cs : List Block} (h : SameSides as bs) (h' : SameSides bs cs) : SameSides as cs :=
  ⟨h.old.trans h'.old, h.new.trans h'.new⟩

theorem symm (h : SameSides as bs) : SameSides bs as := ⟨h.old.symm, h.new.symm⟩

theorem append {cs ds : List Block} (h : SameSides as bs) (h' : SameSides cs ds) :
    SameSides (as ++ cs) (bs ++ ds) := by
  constructor <;> simp [h.old, h.new, h'.old, h'.new]

theorem cons (h : SameSides as bs) (b : Block) : SameSides (b :: as) (b :: bs) := (refl [b]).append h

theorem below (h : SameSides as bs) (before : List Block) : SameSides (before ++ as) (before ++ bs) :=
  (refl before).append h

/-- What is exchanged between other blocks has to spell the same. -/
theorem around (h : SameSides as bs) (before after : List Block) :
    SameSides (before ++ as ++ after) (before ++ bs ++ after) :=
  (h.below before).append (refl after)

end SameSides

/-! ## Moving a block -/

namespace Block

/-- A block that stands on one side only. -/
def IsChange (b : Block) : Prop := ∀ ls, b ≠ .equal ls

theorem isChange_delete (ls : List String) : (delete ls).IsChange := nofun

theorem isChange_insert (ls : List String) : (insert ls).IsChange := nofun

end Block

/-- The block list that is held around a focus. -/
def Focus.blocks (f : Focus) : List Block := f.before.reverse ++ f.block :: f.after

/-! ### Exchanging neighbours -/

theorem SameSides.up (h : SameSides as (b :: bs)) (before : List Block) :
    SameSides (before.reverse ++ as) ((b :: before).reverse ++ bs) := by
  simpa using h.below before.reverse

theorem SameSides.down (h : SameSides (b :: as) bs) (before : List Block) :
    SameSides ((b :: before).reverse ++ as) (before.reverse ++ bs) := by
  simpa using h.below before.reverse

theorem delete_insert_sameSides (ls ms : List String) :
    SameSides [.delete ls, .insert ms] [.insert ms, .delete ls] := by
  constructor <;> simp

theorem delete_append_sameSides (ls ms : List String) :
    SameSides [.delete (ls ++ ms)] [.delete ls, .delete ms] := by
  constructor <;> simp

theorem insert_append_sameSides (ls ms : List String) :
    SameSides [.insert (ls ++ ms)] [.insert ls, .insert ms] := by
  constructor <;> simp

theorem equal_append_sameSides (ls ms : List String) :
    SameSides [.equal (ls ++ ms)] [.equal ls, .equal ms] := by
  constructor <;> simp

theorem empty_sameSides (h : ls.isEmpty = true) : SameSides [] [.equal ls] := by
  constructor <;> simp [List.isEmpty_iff.mp h]

/-- An insertion passes equal lines that end as it does. -/
theorem passUp_sameSides (ls new : List String) :
    let n := commonEnd ls new
    let moved := ls.drop (ls.length - n)
    SameSides
      [.equal (ls.take (ls.length - n)), .insert (moved ++ new.take (new.length - n)), .equal moved]
      [.equal ls, .insert new] := by
  intro n moved
  have hls : ls.take (ls.length - n) ++ moved = ls := List.take_append_drop _ _
  have hnew : new.take (new.length - n) ++ moved = new := by
    rw [show moved = new.drop (new.length - n) from drop_commonEnd ls new, List.take_append_drop]
  constructor
  · simpa using hls
  · simp only [newSide_cons, Block.newLines_equal, Block.newLines_insert, newSide_nil, List.append_nil,
      List.append_assoc, hnew]
    rw [← List.append_assoc, hls]

/-- An insertion passes equal lines that begin as it does. -/
theorem passDown_sameSides (ls new : List String) :
    let n := commonStart ls new
    SameSides [.equal (ls.take n), .insert (new.drop n ++ ls.take n), .equal (ls.drop n)]
      [.insert new, .equal ls] := by
  intro n
  have hnew : ls.take n ++ new.drop n = new := by
    rw [take_commonStart ls new, List.take_append_drop]
  constructor
  · simp
  · simp only [newSide_cons, Block.newLines_equal, Block.newLines_insert, newSide_nil, List.append_nil,
      List.append_assoc, List.take_append_drop]
    rw [← List.append_assoc, hnew]

/-! ### Growing and dropping equal blocks -/

theorem growStart_sameSides (ls : List String) (bs : List Block) :
    SameSides (growStart ls bs) ([.equal ls] ++ bs) := by
  unfold growStart
  split
  next ms bs => exact (equal_append_sameSides ls ms).append (.refl bs)
  next => exact .refl _

theorem growEnd_sameSides (ls : List String) (bs : List Block) :
    SameSides (growEnd ls bs).reverse (bs.reverse ++ [.equal ls]) := by
  unfold growEnd
  split
  next ms bs => simpa using (equal_append_sameSides ms ls).around bs.reverse []
  next => simpa using SameSides.refl (bs.reverse ++ [.equal ls])

theorem dropEmpty_sameSides (ls : List String) (bs : List Block) :
    SameSides (dropEmpty ls bs) ([.equal ls] ++ bs) := by
  unfold dropEmpty
  split
  next h => exact (empty_sameSides h).append (.refl bs)
  next => exact .refl _

theorem dropEmpty_reverse_sameSides (ls : List String) (bs : List Block) :
    SameSides (dropEmpty ls bs).reverse (bs.reverse ++ [.equal ls]) := by
  unfold dropEmpty
  split
  next h => simpa using (empty_sameSides h).around bs.reverse []
  next => simpa using SameSides.refl (bs.reverse ++ [.equal ls])

/-! ### Up and down -/

/-- The focus is on a change, and what is held around it spells the same as `bs`. -/
structure Focus.Keeps (f : Focus) (bs : List Block) : Prop where
  change : f.block.IsChange
  sides : SameSides f.blocks bs

theorem Focus.Keeps.trans {f : Focus} (h : f.Keeps as) (h' : SameSides as bs) : f.Keeps bs :=
  ⟨h.change, h.sides.trans h'⟩

theorem weight_dropEmpty_lt {kept : List String} (h : kept.length < ls.length) (bs : List Block) :
    weight (dropEmpty kept bs) < weight (.equal ls :: bs) := by
  refine Nat.lt_of_le_of_lt (weight_dropEmpty_le kept bs) ?_
  rw [weight, weight]
  exact Nat.add_lt_add_right (Nat.succ_lt_succ h) _

-- One case for what stands above the focus and what is on it: the focus passes the block above, takes it
-- along or drops it, and goes on with the blocks above that one.
theorem moveUp_keeps {block : Block} (hblock : block.IsChange) (before after : List Block) :
    (moveUp before block after).Keeps (before.reverse ++ block :: after) := by
  match before, block with
  | _, .equal ms => exact absurd rfl (hblock ms)
  | [], .delete ms | [], .insert ms =>
    rw [moveUp]
    exact ⟨hblock, .refl _⟩
  | .equal ls :: rest, .delete ms =>
    rw [moveUp.eq_def]
    dsimp only
    split
    next hempty =>
      exact (moveUp_keeps hblock rest after).trans (((empty_sameSides hempty).append (.refl _)).up rest)
    next => exact ⟨hblock, .refl _⟩
  | .equal ls :: rest, .insert new =>
    rw [moveUp.eq_def]
    dsimp only
    split
    next =>
      let n := commonEnd ls new
      let moved := ls.drop (ls.length - n)
      let kept := ls.take (ls.length - n)
      have hends := (dropEmpty_reverse_sameSides kept rest).append
        ((SameSides.refl [.insert (moved ++ new.take (new.length - n))]).append
          (growStart_sameSides moved after))
      have hpass := (passUp_sameSides ls new).around rest.reverse after
      refine (moveUp_keeps (Block.isChange_insert _) _ _).trans (hends.trans ?_)
      simpa using hpass
    next =>
      split
      next hempty =>
        exact (moveUp_keeps hblock rest after).trans (((empty_sameSides hempty).append (.refl _)).up rest)
      next => exact ⟨hblock, .refl _⟩
  | .delete ls :: rest, .delete ms =>
    rw [moveUp.eq_def]
    exact (moveUp_keeps (Block.isChange_delete _) rest after).trans
      (((delete_append_sameSides ls ms).append (.refl after)).up rest)
  | .delete ls :: rest, .insert ms =>
    rw [moveUp.eq_def]
    exact (moveUp_keeps hblock rest _).trans
      (((delete_insert_sameSides ls ms).symm.append (.refl after)).up rest)
  | .insert ls :: rest, .delete ms =>
    rw [moveUp.eq_def]
    exact (moveUp_keeps hblock rest _).trans
      (((delete_insert_sameSides ms ls).append (.refl after)).up rest)
  | .insert ls :: rest, .insert ms =>
    rw [moveUp.eq_def]
    exact (moveUp_keeps (Block.isChange_insert _) rest after).trans
      (((insert_append_sameSides ls ms).append (.refl after)).up rest)
termination_by weight before
decreasing_by
  · simp [weight]
  · simp [weight]
  · exact weight_dropEmpty_lt (by rw [List.length_take]; omega) rest
  all_goals simp [weight]

theorem moveDown_keeps {block : Block} (hblock : block.IsChange) (before after : List Block) :
    (moveDown before block after).Keeps (before.reverse ++ block :: after) := by
  match after, block with
  | _, .equal ms => exact absurd rfl (hblock ms)
  | [], .delete ms | [], .insert ms =>
    rw [moveDown]
    exact ⟨hblock, .refl _⟩
  | .equal ls :: rest, .delete ms =>
    rw [moveDown.eq_def]
    dsimp only
    split
    next hempty =>
      exact (moveDown_keeps hblock before rest).trans
        ((((empty_sameSides hempty).append (.refl rest)).cons _).below _)
    next => exact ⟨hblock, .refl _⟩
  | .equal ls :: rest, .insert new =>
    rw [moveDown.eq_def]
    dsimp only
    split
    next =>
      let n := commonStart ls new
      let moved := ls.take n
      let kept := ls.drop n
      have hends := (growEnd_sameSides moved before).append
        ((SameSides.refl [.insert (new.drop n ++ moved)]).append (dropEmpty_sameSides kept rest))
      have hpass := (passDown_sameSides ls new).around before.reverse rest
      refine (moveDown_keeps (Block.isChange_insert _) _ _).trans (hends.trans ?_)
      simpa using hpass
    next =>
      split
      next hempty =>
        exact (moveDown_keeps hblock before rest).trans
          ((((empty_sameSides hempty).append (.refl rest)).cons _).below _)
      next => exact ⟨hblock, .refl _⟩
  | .delete ls :: rest, .delete ms =>
    rw [moveDown.eq_def]
    exact (moveDown_keeps (Block.isChange_delete _) before rest).trans
      (((delete_append_sameSides ms ls).append (.refl rest)).below _)
  | .delete ls :: rest, .insert ms =>
    rw [moveDown.eq_def]
    exact (moveDown_keeps hblock _ rest).trans
      (((delete_insert_sameSides ls ms).append (.refl rest)).down before)
  | .insert ls :: rest, .delete ms =>
    rw [moveDown.eq_def]
    exact (moveDown_keeps hblock _ rest).trans
      (((delete_insert_sameSides ms ls).symm.append (.refl rest)).down before)
  | .insert ls :: rest, .insert ms =>
    rw [moveDown.eq_def]
    exact (moveDown_keeps (Block.isChange_insert _) before rest).trans
      (((insert_append_sameSides ms ls).append (.refl rest)).below _)
termination_by weight after
decreasing_by
  · simp [weight]
  · simp [weight]
  · exact weight_dropEmpty_lt (by rw [List.length_drop]; omega) rest
  all_goals simp [weight]

/-! ## Compacting -/

/-- A block that moves up and then down leaves what both sides spell. -/
theorem turn_sameSides (hblock : block.IsChange) (before after : List Block) :
    let up := moveUp before block after
    let down := moveDown up.before up.block up.after
    SameSides ((down.block :: down.before).reverse ++ down.after) (before.reverse ++ block :: after) := by
  intro up down
  have hup : up.Keeps (before.reverse ++ block :: after) := moveUp_keeps hblock before after
  have hdown : down.Keeps up.blocks := moveDown_keeps hup.change up.before up.after
  simpa [Focus.blocks] using hdown.sides.trans hup.sides

theorem settle_sameSides {movable : Block → Bool} (hmovable : ∀ b, movable b = true → b.IsChange)
    (before after : List Block) :
    SameSides (settle movable before after) (before.reverse ++ after) := by
  fun_induction settle movable before after with
  | case1 before => simpa using SameSides.refl before.reverse
  | case2 before b rest hb _ _ _ ih => exact ih.trans (turn_sameSides (hmovable b hb) before rest)
  | case3 before b rest hb => exact turn_sameSides (hmovable b hb) before rest
  | case4 before b rest _ ih => simpa using ih

theorem Block.isChange_of_isDelete (h : b.isDelete = true) : b.IsChange := by
  cases b with
  | equal ls => cases h
  | delete ls => exact isChange_delete ls
  | insert ls => exact isChange_insert ls

theorem Block.isChange_of_isInsert (h : b.isInsert = true) : b.IsChange := by
  cases b with
  | equal ls => cases h
  | delete ls => exact isChange_delete ls
  | insert ls => exact isChange_insert ls

/-- Compacting keeps what both sides spell. -/
theorem compact_sameSides (bs : List Block) : SameSides (compact bs) bs :=
  (settle_sameSides (fun _ => Block.isChange_of_isInsert) [] _).trans
    (settle_sameSides (fun _ => Block.isChange_of_isDelete) [] bs)

/-! ## Comparing -/

theorem equalBlock_spells (ls : List String) : Spells (equalBlock ls) ls ls := by
  unfold equalBlock
  split
  next h => constructor <;> simp [List.isEmpty_iff.mp h]
  next => constructor <;> simp

theorem Spells.append {bs' : List Block} {old' new' : List String} (h : Spells bs old new)
    (h' : Spells bs' old' new') : Spells (bs ++ bs') (old ++ old') (new ++ new') := by
  constructor
  · rw [oldSide_append, h.old, h'.old]
  · rw [newSide_append, h.new, h'.new]

theorem take_inner_drop {start stop : Nat} {side : List String} (h : start + stop ≤ side.length) :
    side.take start ++ (inner start stop side ++ side.drop (side.length - stop)) = side := by
  have hdrop : side.drop (side.length - stop) = (side.drop start).drop (side.length - start - stop) := by
    rw [List.drop_drop]
    congr 1
    omega
  rw [inner, hdrop, List.take_append_drop, List.take_append_drop]

theorem endShared_spec (old new : List String) :
    commonStart old new + endShared old new ≤ old.length ∧
      commonStart old new + endShared old new ≤ new.length ∧
      old.drop (old.length - endShared old new) = new.drop (new.length - endShared old new) := by
  have hstart := commonStart_le old new
  have hstop := commonEnd_le (old.drop (commonStart old new)) (new.drop (commonStart old new))
  have hshared := drop_commonEnd (old.drop (commonStart old new)) (new.drop (commonStart old new))
  rw [← endShared] at hstop hshared
  rw [List.length_drop, List.length_drop] at hstop hshared
  rw [List.drop_drop, List.drop_drop] at hshared
  have hold : commonStart old new + (old.length - commonStart old new - endShared old new) =
      old.length - endShared old new := by omega
  have hnew : commonStart old new + (new.length - commonStart old new - endShared old new) =
      new.length - endShared old new := by omega
  rw [hold, hnew] at hshared
  refine ⟨?_, ?_, hshared⟩ <;> omega

/-- The blocks of a comparison spell out what was compared. -/
theorem script_spells (old new : List String) : Spells (script old new) old new := by
  fun_induction script old new with
  | case1 old new start stop core ihtake ihdrop =>
      obtain ⟨hold, hnew, hshared⟩ := endShared_spec old new
      have hcore : Spells core (inner start stop old) (inner start stop new) := by
        simp only [core]
        split
        next ho hn =>
          rw [ho, hn]
          exact ⟨rfl, rfl⟩
        next o os ho hn =>
          rw [ho, hn]
          constructor <;> simp
        next n ns ho hn =>
          rw [ho, hn]
          constructor <;> simp
        next o os n ns ho hn =>
          rw [ho, hn]
          have hreplace : Spells [.delete (o :: os), .insert (n :: ns)] (o :: os) (n :: ns) := by
            constructor <;> simp
          split
          next => exact hreplace
          next x y _ =>
            split
            next h =>
              have := (ihtake o os n ns ho hn x y h).append (ihdrop o os n ns ho hn x y h)
              rwa [List.take_append_drop, List.take_append_drop] at this
            next => exact hreplace
      have hblocks := ((equalBlock_spells (old.take start)).append hcore).append
        (equalBlock_spells (old.drop (old.length - stop)))
      constructor
      · rw [hblocks.old, List.append_assoc, take_inner_drop hold]
      · rw [hblocks.new, List.append_assoc, take_commonStart, hshared, take_inner_drop hnew]

end CodeSweep.Diff
