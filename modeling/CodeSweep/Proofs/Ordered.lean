import CodeSweep.Ordered

/-! # Ordered collections

Putting elements one after the other into an ordered list gives a list that is strictly increasing
(`pairwise_ofList`) and holds just these elements, up to what the comparison takes for equal
(`exists_mem_ofList`). Where equal elements are the same, the list is the only one that does so
(`ofList_eq`): the order in which they are put in does not show, nor how often. Binding a name says what
the name stands for and leaves all other names alone (`lookup_bind`). -/

namespace CodeSweep.Ordered

variable {α : Type} {cmp : α → α → Ordering}

/-! ## Sets -/

theorem eq_or_mem_of_mem_insert {x y : α} {ys : List α} (h : y ∈ insert cmp x ys) : y = x ∨ y ∈ ys := by
  induction ys with
  | nil => exact .inl (List.mem_singleton.mp h)
  | cons z zs ih =>
      rw [insert] at h
      split at h
      next => exact List.mem_cons.mp h
      next => exact (List.mem_cons.mp h).imp_right (List.mem_cons_of_mem z)
      next =>
        rcases List.mem_cons.mp h with rfl | h
        · exact .inr List.mem_cons_self
        · exact (ih h).imp_right (List.mem_cons_of_mem z)

theorem mem_of_mem_ofList {x : α} {xs : List α} (h : x ∈ ofList cmp xs) : x ∈ xs := by
  have hfold : ∀ set : List α, x ∈ xs.foldl (fun set x => insert cmp x set) set → x ∈ xs ∨ x ∈ set := by
    clear h
    induction xs with
    | nil => exact fun set h => .inr h
    | cons y ys ih =>
        intro set h
        rcases ih _ h with h | h
        · exact .inl (List.mem_cons_of_mem y h)
        · rcases eq_or_mem_of_mem_insert h with rfl | h
          · exact .inl List.mem_cons_self
          · exact .inr h
  exact (hfold [] h).resolve_right List.not_mem_nil

section Sets

variable [Std.TransCmp cmp]

/-- An element that makes room does so for an equal one. -/
theorem exists_mem_insert {x y : α} {ys : List α} :
    (∃ z ∈ insert cmp x ys, cmp y z = .eq) ↔ cmp y x = .eq ∨ ∃ z ∈ ys, cmp y z = .eq := by
  induction ys with
  | nil => simp [insert]
  | cons z zs ih =>
      rw [insert]
      split
      next => simp only [List.mem_cons, exists_eq_or_imp]
      next heq =>
        have hroom : cmp y x = .eq ↔ cmp y z = .eq := by rw [Std.TransCmp.congr_right heq]
        simp only [List.mem_cons, exists_eq_or_imp, ← hroom, ← or_assoc, or_self]
      next =>
        simp only [List.mem_cons, exists_eq_or_imp, ih]
        exact or_left_comm

theorem exists_mem_ofList {y : α} {xs : List α} :
    (∃ z ∈ ofList cmp xs, cmp y z = .eq) ↔ ∃ z ∈ xs, cmp y z = .eq := by
  have hfold : ∀ set : List α, (∃ z ∈ xs.foldl (fun set x => insert cmp x set) set, cmp y z = .eq) ↔
      (∃ z ∈ xs, cmp y z = .eq) ∨ ∃ z ∈ set, cmp y z = .eq := by
    induction xs with
    | nil => simp
    | cons x xs ih =>
        intro set
        rw [List.foldl_cons, ih, exists_mem_insert]
        simp only [List.mem_cons, exists_eq_or_imp, or_assoc]
        exact or_left_comm
  rw [ofList, hfold]
  simp

theorem pairwise_insert {x : α} {ys : List α} (h : ys.Pairwise (cmp · · = .lt)) :
    (insert cmp x ys).Pairwise (cmp · · = .lt) := by
  induction h with
  | nil => exact List.pairwise_singleton _ x
  | @cons z zs hz hzs ih =>
      rw [insert]
      split
      next hlt =>
        refine List.pairwise_cons.mpr ⟨?_, List.pairwise_cons.mpr ⟨hz, hzs⟩⟩
        intro y hy
        rcases List.mem_cons.mp hy with rfl | hy
        · exact hlt
        · exact Std.TransCmp.lt_trans hlt (hz y hy)
      next heq =>
        refine List.pairwise_cons.mpr ⟨?_, hzs⟩
        intro y hy
        exact Std.TransCmp.lt_of_eq_of_lt heq (hz y hy)
      next hgt =>
        refine List.pairwise_cons.mpr ⟨?_, ih⟩
        intro y hy
        rcases eq_or_mem_of_mem_insert hy with rfl | hy
        · exact Std.OrientedCmp.gt_iff_lt.mp hgt
        · exact hz y hy

theorem pairwise_ofList (xs : List α) : (ofList cmp xs).Pairwise (cmp · · = .lt) := by
  have hfold : ∀ set : List α, set.Pairwise (cmp · · = .lt) →
      (xs.foldl (fun set x => insert cmp x set) set).Pairwise (cmp · · = .lt) := by
    induction xs with
    | nil => exact fun set hset => hset
    | cons x xs ih => exact fun set hset => ih _ (pairwise_insert hset)
  exact hfold [] List.Pairwise.nil

/-- Of equal elements an ordered list holds one. -/
theorem countP_of_pairwise {y : α} {zs : List α} (h : zs.Pairwise (cmp · · = .lt)) :
    zs.countP (fun z => cmp y z = .eq) = if ∃ z ∈ zs, cmp y z = .eq then 1 else 0 := by
  induction h with
  | nil => simp
  | @cons z zs hz _ ih =>
      by_cases heq : cmp y z = .eq
      · have hnone : ¬ ∃ w ∈ zs, cmp y w = .eq := by
          rintro ⟨w, hw, hyw⟩
          rw [Std.TransCmp.congr_left heq, hz w hw] at hyw
          cases hyw
        rw [List.countP_cons_of_pos (by simpa using heq), ih, if_neg hnone,
          if_pos ⟨z, List.mem_cons_self, heq⟩]
      · rw [List.countP_cons_of_neg (by simpa using heq), ih]
        simp only [List.mem_cons, exists_eq_or_imp, heq, false_or]

theorem countP_ofList (y : α) (xs : List α) :
    (ofList cmp xs).countP (fun z => cmp y z = .eq) = if ∃ z ∈ xs, cmp y z = .eq then 1 else 0 := by
  rw [countP_of_pairwise (pairwise_ofList xs)]
  simp only [exists_mem_ofList]

variable [Std.LawfulEqCmp cmp]

theorem mem_ofList {x : α} {xs : List α} : x ∈ ofList cmp xs ↔ x ∈ xs := by
  have hmem : ∀ ys : List α, (∃ y ∈ ys, cmp x y = .eq) ↔ x ∈ ys := by simp
  rw [← hmem, exists_mem_ofList, hmem]

/-- A strictly increasing list is the ordered list of its elements. -/
theorem ofList_eq {xs ys : List α} (hys : ys.Pairwise (cmp · · = .lt)) (h : ∀ x, x ∈ xs ↔ x ∈ ys) :
    ofList cmp xs = ys := by
  have hnodup : ∀ zs : List α, zs.Pairwise (cmp · · = .lt) → zs.Nodup := by
    intro zs hzs
    apply hzs.imp
    rintro a b hlt rfl
    exact Std.OrientedCmp.not_lt_of_lt hlt hlt
  have hxs : (ofList cmp xs).Pairwise (cmp · · = .lt) := pairwise_ofList xs
  have hperm : (ofList cmp xs).Perm ys := by
    rw [List.perm_ext_iff_of_nodup (hnodup _ hxs) (hnodup _ hys)]
    exact fun x => mem_ofList.trans (h x)
  refine hperm.eq_of_pairwise ?_ hxs hys
  intro a b _ _ hab hba
  exact absurd hba (Std.OrientedCmp.not_lt_of_lt hab)

theorem ofList_congr {xs ys : List α} (h : ∀ x, x ∈ xs ↔ x ∈ ys) : ofList cmp xs = ofList cmp ys :=
  ofList_eq (pairwise_ofList ys) fun x => (h x).trans mem_ofList.symm

end Sets

/-! ## Maps -/

variable {β : Type}

theorem lookup_entry (name key : String) (value : β) (map : List (String × β)) :
    ((key, value) :: map).lookup name = if name = key then some value else map.lookup name := by
  rw [List.lookup_cons]
  by_cases h : name = key
  · rw [if_pos h, beq_iff_eq.mpr h]
  · rw [if_neg h, beq_eq_false_iff_ne.mpr h]

theorem lookup_bind (name other : String) (value : β) (map : List (String × β)) :
    (bind name value map).lookup other = if other = name then some value else map.lookup other := by
  unfold bind
  induction map with
  | nil => rw [insert, lookup_entry]
  | cons entry entries ih =>
      obtain ⟨key, old⟩ := entry
      rw [insert]
      split
      next => rw [lookup_entry]
      next heq =>
        have hkey : name = key := Std.LawfulEqCmp.eq_of_compare (show compare name key = .eq from heq)
        rw [lookup_entry, lookup_entry, ← hkey]
        split <;> rfl
      next hgt =>
        have hkey : name ≠ key := by
          rintro rfl
          simp [byKey] at hgt
        rw [lookup_entry, ih, lookup_entry]
        split
        next h => rw [if_neg (h ▸ hkey.symm)]
        next => rfl

instance : Std.TransCmp (@byKey β) := inferInstanceAs (Std.TransCmp (compareOn Prod.fst))

theorem pairwise_bind {name : String} {value : β} {map : List (String × β)}
    (h : map.Pairwise (byKey · · = .lt)) : (bind name value map).Pairwise (byKey · · = .lt) :=
  pairwise_insert h

/-- Where names are bound once, what is found under a name is what it is bound to. -/
theorem lookup_eq_some_iff_mem {name : String} {value : β} {map : List (String × β)}
    (h : (map.map Prod.fst).Nodup) : map.lookup name = some value ↔ (name, value) ∈ map := by
  induction map with
  | nil => simp
  | cons entry entries ih =>
      obtain ⟨key, old⟩ := entry
      obtain ⟨hkey, hentries⟩ := List.nodup_cons.mp h
      rw [lookup_entry, List.mem_cons, Prod.mk.injEq]
      split
      next heq =>
        subst heq
        have hnone : (name, value) ∉ entries := fun hmem => hkey (List.mem_map.mpr ⟨_, hmem, rfl⟩)
        simp [hnone, eq_comm]
      next hne => rw [ih hentries]; simp [hne]

theorem nodup_keys {map : List (String × β)} (h : map.Pairwise (byKey · · = .lt)) :
    (map.map Prod.fst).Nodup := by
  refine List.pairwise_map.mpr (h.imp fun {a b} hlt heq => ?_)
  simp [byKey, heq] at hlt

/-- In a map names are bound once. -/
theorem lookup_eq_some_iff {name : String} {value : β} {map : List (String × β)}
    (h : map.Pairwise (byKey · · = .lt)) : map.lookup name = some value ↔ (name, value) ∈ map :=
  lookup_eq_some_iff_mem (nodup_keys h)

end CodeSweep.Ordered
