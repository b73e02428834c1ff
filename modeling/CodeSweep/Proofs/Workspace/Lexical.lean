import CodeSweep.Proofs.Workspace.WorkDir
import Mathlib.Algebra.Order.BigOperators.Group.List
import Mathlib.Algebra.Order.Group.Nat

/-! # Where paths lead by their text

The components of a path, taken one after the other from the root, lead to a place: a name goes down,
`..` goes up again and stops at the root. That is where the path leads on a disk without links
(`locate_of_plain`), and it can be told without a disk.

A path seen from a directory need not lead below it. Its descent are the names that it goes down by
without ever leaving the directory. A path with a descent leads the same way down from every directory
(`resolve_of_descent?`); a path without one leads out of some directory (`exists_outside`). -/

namespace CodeSweep

namespace Path

variable {p q : Path} {cs : List Component} {here start down : Location} {name : String}

/-- Where a component leads from a place. -/
def Component.step (here : Location) : Component → Location
  | .root => []
  | .here => here
  | .up => here.dropLast
  | .name name => here ++ [name]

/-- Where components lead from a place. -/
def resolve (here : Location) (cs : List Component) : Location := cs.foldl Component.step here

/-- The place that a path stands for. -/
def place (p : Path) : Location := resolve [] p.components

/-- The names that components go down by below a directory, when they are down by `here` and never
leave the directory. -/
def descend? (here : Location) : List Component → Option Location
  | [] => some here
  | .root :: _ => none
  | .here :: rest => descend? here rest
  | .up :: rest => if here = [] then none else descend? here.dropLast rest
  | .name name :: rest => descend? (here ++ [name]) rest

/-- The names that a path goes down by below the directory that it is seen from. -/
def descent? (p : Path) : Option Location := descend? [] p.components

theorem resolve_append (here : Location) (cs more : List Component) :
    resolve here (cs ++ more) = resolve (resolve here cs) more := List.foldl_append

theorem text_ne_of_absolute (h : p.isAbsolute = true) : p.text ≠ "" := by
  intro htext
  simp [isAbsolute, htext] at h

theorem isAbsolute_join_of_absolute (h : p.isAbsolute = true) : (p.join q).isAbsolute = true := by
  cases hq : q.isAbsolute with
  | true => simp [join, hq]
  | false => rw [isAbsolute_join hq, h]

theorem components_of_absolute (h : p.isAbsolute = true) :
    p.components = .root :: (Text.pieces '/' p.text.toList).filterMap ofPiece := by
  have hempty : ofPiece [] = none := rfl
  obtain ⟨rest, htext⟩ : ∃ rest, p.text.toList = '/' :: rest := by
    rw [isAbsolute, beq_iff_eq, List.head?_eq_some_iff] at h
    exact h
  rw [components, htext, Text.pieces, if_pos rfl, h]
  simp [hempty]

theorem components_of_relative (h : p.isAbsolute = false) : ∃ dot : List Component,
    (dot = [] ∨ dot = [.here]) ∧
      p.components = dot ++ (Text.pieces '/' p.text.toList).filterMap ofPiece := by
  obtain ⟨first, rest, hpieces⟩ := List.exists_cons_of_ne_nil (Text.pieces_ne_nil '/' p.text.toList)
  rw [components, hpieces, h]
  by_cases hdot : first = ['.']
  · refine ⟨[.here], .inr rfl, ?_⟩
    simp [hdot, ofPiece]
  · refine ⟨[], .inl rfl, ?_⟩
    cases hpiece : ofPiece first <;> simp [hdot, hpiece]

/-- What is seen from a directory leads on from the place of the directory. -/
theorem resolve_join (hp : p.text ≠ "") :
    resolve here (p.join q).components = resolve (resolve here p.components) q.components := by
  cases hq : q.isAbsolute with
  | true =>
      have hjoin : p.join q = q := by simp [join, hq]
      rw [hjoin, components_of_absolute hq]
      rfl
  | false =>
      obtain ⟨dot, hdot, hcomponents⟩ := components_of_relative hq
      rw [components_join hq fun _ => hp, hcomponents, resolve_append]
      rcases hdot with rfl | rfl <;> rfl

theorem place_child (hp : p.text ≠ "") :
    (p.child name).place = resolve p.place (components ⟨name⟩) :=
  resolve_join hp

/-- Components with a descent lead down by it, wherever they start. -/
theorem resolve_of_descend? (h : descend? here cs = some down) :
    resolve (start ++ here) cs = start ++ down := by
  induction cs generalizing here with
  | nil =>
      cases h
      rfl
  | cons c rest ih =>
      cases c with
      | root => cases h
      | here => exact ih h
      | up =>
          rw [descend?] at h
          split at h
          next => cases h
          next hne =>
            show resolve (start ++ here).dropLast rest = start ++ down
            rw [List.dropLast_append_of_ne_nil hne]
            exact ih h
      | name name =>
          show resolve (start ++ here ++ [name]) rest = start ++ down
          rw [List.append_assoc]
          exact ih h

/-- **A path with a descent leads down by it from every directory.** -/
theorem resolve_of_descent? (h : q.descent? = some down) :
    resolve start q.components = start ++ down := by
  have hdown : resolve (start ++ []) q.components = start ++ down := resolve_of_descend? h
  rwa [List.append_nil] at hdown

/-- A name that is not on the way is only where it was before. -/
theorem not_mem_resolve (hname : name ∉ here) (hcs : Component.name name ∉ cs) :
    name ∉ resolve here cs := by
  induction cs generalizing here with
  | nil => exact hname
  | cons c rest ih =>
      have hrest := List.not_mem_of_not_mem_cons hcs
      apply ih _ hrest
      cases c with
      | root => exact List.not_mem_nil
      | here => exact hname
      | up => exact fun hmem => hname (List.dropLast_subset here hmem)
      | name other =>
          intro hmem
          rcases List.mem_append.mp hmem with hmem | hmem
          · exact hname hmem
          · exact List.ne_of_not_mem_cons hcs (by rw [List.mem_singleton.mp hmem])

/-- Components without a descent leave a directory that they do not name. -/
theorem not_mem_resolve_of_descend? (h : descend? here cs = none) (hcs : Component.name name ∉ cs) :
    name ∉ resolve (name :: here) cs := by
  induction cs generalizing here with
  | nil => cases h
  | cons c rest ih =>
      have hrest := List.not_mem_of_not_mem_cons hcs
      cases c with
      | root =>
          show name ∉ resolve [] rest
          exact not_mem_resolve List.not_mem_nil hrest
      | here => exact ih h hrest
      | up =>
          rw [descend?] at h
          split at h
          next hnil =>
            subst hnil
            show name ∉ resolve [] rest
            exact not_mem_resolve List.not_mem_nil hrest
          next hne =>
            show name ∉ resolve (name :: here).dropLast rest
            rw [List.dropLast_cons_of_ne_nil hne]
            exact ih h hrest
      | name other => exact ih h hrest

/-- There is a name for an entry besides any given ones. -/
theorem exists_fresh (names : List String) :
    ∃ name, Listing.isEntryName name = true ∧ name ∉ names := by
  -- longer than all of them together
  refine ⟨String.ofList (List.replicate ((names.map String.length).sum + 1) 'a'), ?_, fun hmem => ?_⟩
  · simp [Listing.isEntryName_iff, ← String.toList_inj, List.replicate_succ]
  · have hle := List.le_sum_of_mem (List.mem_map_of_mem (f := String.length) hmem)
    rw [String.length_ofList, List.length_replicate] at hle
    omega

/-- **A path without a descent leads out of some directory.** -/
theorem exists_outside (h : q.descent? = none) :
    ∃ p : Path, p.isAbsolute = true ∧ ¬ p.place <+: (p.join q).place := by
  obtain ⟨name, hname, hfresh⟩ := exists_fresh (q.components.map Component.text)
  have hslash := not_mem_of_isEntryName hname
  have hplace : ((⟨"/"⟩ : Path).child name).place = [name] := by
    rw [place, components_child_of_entry hname]
    rfl
  have habsolute : ((⟨"/"⟩ : Path).child name).isAbsolute = true := isAbsolute_child hslash
  refine ⟨(⟨"/"⟩ : Path).child name, habsolute, fun hprefix => ?_⟩
  have hmem : name ∈ (((⟨"/"⟩ : Path).child name).join q).place :=
    hprefix.subset (by simp [hplace])
  rw [place, resolve_join (text_ne_of_absolute habsolute), ← place, hplace] at hmem
  exact not_mem_resolve_of_descend? h (fun hcs => hfresh (List.mem_map_of_mem hcs)) hmem

end Path

/-! ## Disks without links -/

namespace Disk

variable {d : Disk} {p : Path} {loc base : Location} {hops : Nat} {steps : List Step}

/-- Where a step leads from a place. -/
def Step.go (here : Location) : Step → Location
  | .root => []
  | .here => here
  | .up => here.dropLast
  | .name entry => here ++ [entry]
  | .directory => here

/-- Steps that meet no link lead where their names say. -/
theorem follow_of_plain (hplain : ∀ loc target, d.kind? loc ≠ some (.link target))
    (h : d.follow hops loc steps = .ok base) : base = steps.foldl Step.go loc := by
  induction steps generalizing loc with
  | nil => simpa using h.symm
  | cons step rest ih =>
      cases step with
      | root =>
          rw [follow_root] at h
          exact ih h
      | directory =>
          rw [follow_directory] at h
          split at h
          · exact ih h
          · cases h
      | here => exact ih (follow_here_eq_ok.mp h).2
      | up => exact ih (follow_up_eq_ok.mp h).2
      | name name =>
          obtain ⟨-, -, kind, hkind, hstep⟩ := follow_name_eq_ok.mp h
          cases kind with
          | link target => exact absurd hkind (hplain _ target)
          | file => exact ih hstep
          | dir listable => exact ih hstep

/-- A piece between slashes asks for the step that its component is. -/
theorem foldl_go_pieces (here : Location) (pieces : List (List Char)) :
    (pieces.filterMap Step.ofPiece?).foldl Step.go here = Path.resolve here (pieces.filterMap Path.ofPiece) := by
  induction pieces generalizing here with
  | nil => rfl
  | cons piece rest ih =>
      have hsame : ([piece].filterMap Step.ofPiece?).foldl Step.go here =
          Path.resolve here ([piece].filterMap Path.ofPiece) := by
        by_cases hempty : piece = []
        · simp [Step.ofPiece?, Path.ofPiece, hempty, Path.resolve]
        · by_cases hdot : piece = ['.']
          · simp [Step.ofPiece?, Path.ofPiece, hdot, Path.resolve, Step.go]
          · by_cases hup : piece = ['.', '.'] <;>
              simp [Step.ofPiece?, Path.ofPiece, hempty, hdot, hup, Path.resolve, Step.go,
                Path.Component.step]
      rw [← List.singleton_append, List.filterMap_append, List.filterMap_append, List.foldl_append, hsame,
        ih, Path.resolve_append]

/-- **On a disk without links a path leads to the place that it stands for.** -/
theorem locate_of_plain (hplain : ∀ loc target, d.kind? loc ≠ some (.link target))
    (habsolute : p.isAbsolute = true) (h : d.locate p = .ok loc) : loc = p.place := by
  have hfollow := follow_of_plain hplain (follow_of_locate h)
  rw [stepsOver_stem, stepsOver, habsolute, if_pos rfl, List.singleton_append, List.foldl_cons,
    foldl_go_pieces] at hfollow
  rw [hfollow, Path.place, Path.components_of_absolute habsolute]
  rfl

end Disk

end CodeSweep
