/-!
# The bytes of a text

The system knows texts by their UTF-8 bytes. Texts are ordered as their bytes are: they are compared
character by character, and the bytes of a character come before those of every later character
(`utf8EncodeChar_append_lt`), so that it makes no difference to compare bytes instead
(`lt_iff_bytes_lt`).
-/

namespace CodeSweep.Text

/-- The UTF-8 bytes of a text. -/
def bytesOf (s : String) : List UInt8 := s.toByteArray.data.toList

/-- The text that bytes are the UTF-8 bytes of, if any. -/
def ofBytes? (bytes : List UInt8) : Option String := String.fromUTF8? ⟨bytes.toArray⟩

theorem ofBytes?_eq_some_iff {bytes : List UInt8} {s : String} :
    ofBytes? bytes = some s ↔ bytes = bytesOf s := by
  unfold ofBytes? String.fromUTF8?
  constructor
  · intro h
    split at h
    next =>
      cases h
      rfl
    next => cases h
  · rintro rfl
    have hbytes : (⟨(bytesOf s).toArray⟩ : ByteArray) = s.toByteArray := by simp [bytesOf]
    rw [hbytes, dif_pos s.isValidUTF8]
    rfl

theorem bytesOf_inj {a b : String} : bytesOf a = bytesOf b ↔ a = b := by
  refine ⟨fun h => ?_, congrArg bytesOf⟩
  exact String.toByteArray_inj.mp (ByteArray.ext (Array.toList_inj.mp h))

theorem bytesOf_eq (s : String) : bytesOf s = s.toList.flatMap String.utf8EncodeChar := by
  have hbytes : s.toByteArray = s.toList.utf8Encode := by
    rw [← String.toByteArray_ofList, String.ofList_toList]
  rw [bytesOf, hbytes, List.utf8Encode, List.data_toByteArray, List.toList_toArray]

/-! ## One character -/

/-- The byte of a slash is in the bytes of no other character. -/
theorem slash_mem_utf8EncodeChar {c : Char} : 0x2f ∈ String.utf8EncodeChar c ↔ c = '/' := by
  have hval : c = '/' ↔ c.val.toNat = 0x2f := by
    rw [← Char.toNat_inj]
    rfl
  have hmax : c.val.toNat < 0x110000 := by
    rcases c.valid with hc | ⟨-, hc⟩ <;> omega
  rw [hval]
  unfold String.utf8EncodeChar
  generalize c.val.toNat = n at *
  dsimp only
  -- a byte of a character with several is marked as such, which puts it above all characters with one
  repeat' split
  all_goals
    simp only [List.mem_cons, List.not_mem_nil, or_false, ← UInt8.toNat_inj, UInt8.toNat_ofNat']
    simp only [UInt8.reduceToNat]
    omega

/-- The bytes of a character come before those of a later one, whatever follows. -/
theorem utf8EncodeChar_append_lt {c d : Char} (h : c < d) (xs ys : List UInt8) :
    String.utf8EncodeChar c ++ xs < String.utf8EncodeChar d ++ ys := by
  have hlt : c.val.toNat < d.val.toNat := h
  have hmax : d.val.toNat < 0x110000 := by
    rcases d.valid with hd | ⟨-, hd⟩ <;> omega
  have hsquare : ∀ n, n / 4096 = n / 64 / 64 := by intro n; omega
  have hcube : ∀ n, n / 262144 = n / 64 / 64 / 64 := by intro n; omega
  unfold String.utf8EncodeChar
  generalize c.val.toNat = m at *
  generalize d.val.toNat = n at *
  dsimp only
  -- the bytes are digits to the base 64 with marks: a longer sequence begins with a greater mark, and of
  -- two of a length the first digits that differ count
  repeat' split
  all_goals
    simp only [List.cons_append, List.nil_append, List.cons_lt_cons_iff, UInt8.lt_iff_toNat_lt,
      ← UInt8.toNat_inj, UInt8.toNat_ofNat', hsquare, hcube]
    omega

/-! ## Texts -/

theorem flatMap_utf8EncodeChar_lt {cs ds : List Char} (h : cs < ds) :
    cs.flatMap String.utf8EncodeChar < ds.flatMap String.utf8EncodeChar := by
  induction cs generalizing ds with
  | nil =>
      cases ds with
      | nil => exact absurd h (List.lt_irrefl [])
      | cons d ds =>
          obtain ⟨b, bs, hd⟩ := List.exists_cons_of_ne_nil (String.utf8EncodeChar_ne_nil (c := d))
          rw [List.flatMap_cons, hd]
          exact List.nil_lt_cons b _
  | cons c cs ih =>
      cases ds with
      | nil => exact absurd h (List.not_lt_nil _)
      | cons d ds =>
          rw [List.flatMap_cons, List.flatMap_cons]
          rcases List.cons_lt_cons_iff.mp h with hlt | ⟨rfl, hrest⟩
          · exact utf8EncodeChar_append_lt hlt _ _
          · exact List.append_left_lt (ih hrest)

theorem slash_mem_bytesOf {s : String} : 0x2f ∈ bytesOf s ↔ '/' ∈ s.toList := by
  simp only [bytesOf_eq, List.mem_flatMap, slash_mem_utf8EncodeChar, exists_eq_right]

/-- **Texts are ordered as their bytes are.** -/
theorem lt_iff_bytes_lt {a b : String} : a < b ↔ bytesOf a < bytesOf b := by
  have hmono : ∀ {s t : String}, s < t → bytesOf s < bytesOf t := by
    intro s t h
    rw [bytesOf_eq, bytesOf_eq]
    exact flatMap_utf8EncodeChar_lt (String.lt_iff.mp h)
  refine ⟨hmono, fun h => ?_⟩
  by_cases hgt : b < a
  · exact absurd h (List.lt_asymm (hmono hgt))
  · refine Decidable.byContradiction fun hlt => ?_
    have heq : a = b := String.le_antisymm (String.not_lt.mp hgt) (String.not_lt.mp hlt)
    exact absurd h (heq ▸ List.lt_irrefl _)

theorem compare_eq_lt_iff {a b : String} : compare a b = .lt ↔ bytesOf a < bytesOf b :=
  compareOfLessAndEq_eq_lt.trans lt_iff_bytes_lt

end CodeSweep.Text
