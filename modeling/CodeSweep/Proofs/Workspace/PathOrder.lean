import CodeSweep.Path
import Mathlib.Order.Compare

/-! # The order of paths

Paths are compared component by component. This is a linear order on components and so on lists of them;
on paths it is one up to the way they are written: paths that are neither before nor after each other are
those with the same components (`compare_eq_iff_same`). -/

namespace CodeSweep.Path

namespace Component

/-- What components of one rank are told apart by. -/
def label : Component → String
  | .name s => s
  | _ => ""

theorem compare_eq_compareLex :
    Component.compare = compareLex (compareOn rank) (compareOn label) := by
  funext a b
  cases a <;> cases b <;> rfl

instance : Std.TransCmp Component.compare := by
  rw [compare_eq_compareLex]
  infer_instance

instance : Std.LawfulEqCmp Component.compare where
  eq_of_compare {a b} h := by
    cases a <;> cases b <;> simp_all [Component.compare, rank]

end Component

variable {p q : Path}

theorem compareComponents_eq : compareComponents = List.compareLex Component.compare := by
  funext as bs
  induction as generalizing bs with
  | nil => cases bs <;> rfl
  | cons a as ih =>
      cases bs with
      | nil => rfl
      | cons b bs => rw [compareComponents, ih, List.compareLex_cons_cons]

theorem compare_eq : p.compare q = List.compareLex Component.compare p.components q.components := by
  rw [compare, compareComponents_eq]

instance : Std.TransCmp Path.compare where
  eq_swap := by
    intro p q
    rw [compare_eq, compare_eq]
    exact Std.OrientedCmp.eq_swap
  isLE_trans := by
    intro p q r
    rw [compare_eq, compare_eq, compare_eq]
    exact Std.TransCmp.isLE_trans

theorem same_comm : p.same q = q.same p := Bool.beq_comm

theorem compare_eq_iff_same : p.compare q = .eq ↔ p.same q = true := by
  rw [compare_eq, Std.LawfulEqCmp.compare_eq_iff_eq, same, beq_iff_eq]

end CodeSweep.Path
