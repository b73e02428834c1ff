import CodeSweep.Text.Bytes

/-!
# Names of entries

The system takes almost any bytes for the name of an entry, also such as are no text. A tree is
therefore built over a kind of names. `EntryName` asks what the bytes of such a name are and which text
they make, if they make one: names are told apart and ordered by their bytes, and every text has a name.

Texts are a kind of names (`instEntryNameString`). They are all the names that paths lead to, since paths
are texts here, and so the kind that everything but the walk itself is about. `RawName` are all the
others with them.
-/

namespace CodeSweep

/-- What entries of a directory may be called. -/
class EntryName (ν : Type) [LT ν] where
  /-- What the system knows the name by. -/
  bytes : ν → List UInt8
  /-- The text that the name is, if it is one. -/
  text? : ν → Option String
  /-- The name that a text is. -/
  ofText : String → ν
  eq_of_bytes_eq : ∀ {a b : ν}, bytes a = bytes b → a = b
  lt_iff_bytes_lt : ∀ {a b : ν}, a < b ↔ bytes a < bytes b
  text?_eq_some_iff : ∀ {name : ν} {s : String}, text? name = some s ↔ bytes name = Text.bytesOf s
  bytes_ofText : ∀ s : String, bytes (ofText s) = Text.bytesOf s

instance instEntryNameString : EntryName String where
  bytes := Text.bytesOf
  text? := some
  ofText := id
  eq_of_bytes_eq := Text.bytesOf_inj.mp
  lt_iff_bytes_lt := Text.lt_iff_bytes_lt
  text?_eq_some_iff := by simp [Text.bytesOf_inj]
  bytes_ofText _ := rfl

/-- A name as the system has it, whether it is a text or not. -/
structure RawName where
  bytes : List UInt8
deriving DecidableEq, Inhabited

instance : LT RawName := ⟨fun a b => a.bytes < b.bytes⟩

instance : DecidableLT RawName := fun a b => inferInstanceAs (Decidable (a.bytes < b.bytes))

instance : EntryName RawName where
  bytes := RawName.bytes
  text? name := Text.ofBytes? name.bytes
  ofText s := ⟨Text.bytesOf s⟩
  eq_of_bytes_eq := fun {a b} h => by
    cases a
    cases b
    exact congrArg RawName.mk h
  lt_iff_bytes_lt := Iff.rfl
  text?_eq_some_iff := Text.ofBytes?_eq_some_iff
  bytes_ofText _ := rfl

namespace EntryName

variable {ν : Type} [LT ν] [EntryName ν] {a b c : ν}

@[simp] theorem ofText_string (s : String) : (ofText s : String) = s := rfl

theorem lt_irrefl (a : ν) : ¬ a < a := fun h => List.lt_irrefl _ (lt_iff_bytes_lt.mp h)

instance : Std.Irrefl (α := ν) (· < ·) := ⟨lt_irrefl⟩

theorem lt_trans (hab : a < b) (hbc : b < c) : a < c :=
  lt_iff_bytes_lt.mpr (List.lt_trans (lt_iff_bytes_lt.mp hab) (lt_iff_bytes_lt.mp hbc))

theorem lt_asymm (h : a < b) : ¬ b < a := fun hba => lt_irrefl a (lt_trans h hba)

theorem lt_of_not_lt_of_ne (hlt : ¬ a < b) (hne : a ≠ b) : b < a := by
  rw [lt_iff_bytes_lt] at hlt ⊢
  refine Decidable.byContradiction fun hgt => hne (eq_of_bytes_eq ?_)
  exact List.le_antisymm hgt hlt

end EntryName

end CodeSweep
