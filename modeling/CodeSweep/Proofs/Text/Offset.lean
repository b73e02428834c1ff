import CodeSweep.Text.Offset

/-! # Where a text can be cut

Cutting characters at a number of bytes gives the two parts that make them up, the first of that many
bytes (`cut?_eq_some_iff`), so a text can be cut exactly at the offsets where its UTF-8 form can
(`isValid_iff_exists_cut`). -/

namespace CodeSweep.Text

variable {cs before after : List Char} {n : Nat}

@[simp] theorem byteLength_append (cs ds : List Char) :
    byteLength (cs ++ ds) = byteLength cs + byteLength ds := by
  induction cs with
  | nil => simp [byteLength]
  | cons c cs ih => rw [List.cons_append, byteLength, byteLength, ih, Nat.add_assoc]

theorem utf8ByteSize_ofList (cs : List Char) : (String.ofList cs).utf8ByteSize = byteLength cs := by
  induction cs with
  | nil => rfl
  | cons c cs ih =>
      rw [String.ofList_cons, String.utf8ByteSize_append, ih, String.utf8ByteSize_singleton, byteLength]

theorem size_utf8Encode (cs : List Char) : cs.utf8Encode.size = byteLength cs := by
  rw [← utf8ByteSize_ofList, ← String.toByteArray_ofList, String.size_toByteArray]

theorem cut?_append (before after : List Char) :
    cut? (byteLength before) (before ++ after) = some (before, after) := by
  induction before with
  | nil => rw [byteLength, List.nil_append, cut?]
  | cons c cs ih =>
      have hsize : byteLength (c :: cs) = c.utf8Size + byteLength cs := rfl
      obtain ⟨n, hn⟩ := Nat.exists_eq_add_one.mpr
        (show 0 < byteLength (c :: cs) from hsize ▸ Nat.add_pos_left c.utf8Size_pos _)
      have hcs : n + 1 - c.utf8Size = byteLength cs := by omega
      rw [hn, List.cons_append, cut?, if_pos (by omega), hcs, ih]
      rfl

theorem cut?_eq_some_iff :
    cut? n cs = some (before, after) ↔ cs = before ++ after ∧ byteLength before = n := by
  constructor
  · intro h
    fun_induction cut? n cs generalizing before with
    | case1 cs =>
        cases h
        exact ⟨rfl, rfl⟩
    | case2 => cases h
    | case3 n c cs hc ih =>
        obtain ⟨⟨front, back⟩, hcut, hpair⟩ := Option.map_eq_some_iff.mp h
        cases hpair
        obtain ⟨rfl, hlength⟩ := ih hcut
        refine ⟨rfl, ?_⟩
        rw [byteLength]
        omega
    | case4 => cases h
  · rintro ⟨rfl, rfl⟩
    exact cut?_append before after

/-- An offset of a text is valid exactly when its characters can be cut there. -/
theorem isValid_iff_exists_cut {s : String} :
    String.Pos.Raw.IsValid s ⟨n⟩ ↔ ∃ before after, s.toList = before ++ after ∧ byteLength before = n := by
  rw [String.Pos.Raw.isValid_iff_exists_append]
  constructor
  · rintro ⟨front, back, rfl, hn⟩
    refine ⟨front.toList, back.toList, String.toList_append, ?_⟩
    rw [← utf8ByteSize_ofList, String.ofList_toList]
    exact (congrArg String.Pos.Raw.byteIdx hn).symm
  · rintro ⟨before, after, hs, rfl⟩
    refine ⟨String.ofList before, String.ofList after, ?_, ?_⟩
    · rw [← String.ofList_append, ← hs, String.ofList_toList]
    · rw [← utf8ByteSize_ofList]
      rfl

end CodeSweep.Text
