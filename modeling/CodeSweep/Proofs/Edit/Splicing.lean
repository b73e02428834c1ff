import CodeSweep.Edit
import CodeSweep.Proofs.Ordered
import CodeSweep.Proofs.Text.Offset
import Mathlib.Order.Compare

/-! # Committing a batch of edits

A batch is committed on characters, in one pass from the left. In bytes it comes to this
(`commit_splices`): some of the edits are taken, in order and apart from each other; their spans make way
for their texts and every other byte of the source stays where it is; and an edit is left out only where
its span is not one of the text or begins inside the span of an edit that comes before it.

The pass keeps to one invariant, `Remains`: the characters not read yet are those of the source from the
cursor on. So the test at each edit is whether it `Fits` the source and does not begin before the cursor
(`take?_of_fits`, `take?_eq_some`), and the edits that are taken are those of the relation `Takes`, which
knows nothing of characters (`splice_takes`). -/

namespace CodeSweep.Edit

variable {source : String} {cursor : Nat} {rest kept after : List Char} {e a b : Edit}
  {edits taken : List Edit}

/-! ## Spans and their order -/

/-- Where the replaced span ends. -/
def stop (e : Edit) : Nat := e.position + e.deleted

/-- The span of an edit is one of the text: its end is an offset at all, and both ends are in the text
and split no character. -/
structure Fits (source : String) (e : Edit) : Prop where
  word : e.stop < offsetLimit
  start_valid : String.Pos.Raw.IsValid source ⟨e.position⟩
  stop_valid : String.Pos.Raw.IsValid source ⟨e.stop⟩

/-- Which of two edits comes first: by position, then by length, then by text. -/
def Precedes (a b : Edit) : Prop :=
  a.position < b.position ∨ a.position = b.position ∧
    (a.deleted < b.deleted ∨ a.deleted = b.deleted ∧ a.text < b.text)

theorem Precedes.position_le (h : a.Precedes b) : a.position ≤ b.position := by
  rcases h with h | ⟨h, -⟩ <;> omega

theorem order_eq_compareLex :
    order = compareLex (compareOn position) (compareLex (compareOn deleted) (compareOn text)) := rfl

instance : Std.TransCmp order := by
  rw [order_eq_compareLex]
  infer_instance

instance : Std.LawfulEqCmp order where
  eq_of_compare {a b} h := by
    simp only [order, Ordering.then_eq_eq, Std.LawfulEqCmp.compare_eq_iff_eq] at h
    obtain ⟨hposition, hdeleted, htext⟩ := h
    cases a
    cases b
    simp_all

theorem order_eq_lt_iff : order a b = .lt ↔ a.Precedes b := by
  have htext : compare a.text b.text = .lt ↔ a.text < b.text := compareOfLessAndEq_eq_lt
  simp only [order, Precedes, Ordering.then_eq_lt, Nat.compare_eq_lt, Nat.compare_eq_eq, htext]

theorem mem_ordered : e ∈ Ordered.ofList order edits ↔ e ∈ edits := Ordered.mem_ofList

theorem pairwise_ordered (edits : List Edit) : (Ordered.ofList order edits).Pairwise Precedes :=
  (Ordered.pairwise_ofList edits).imp fun h => order_eq_lt_iff.mp h

theorem Precedes.ne (h : a.Precedes b) : a ≠ b := by
  rintro rfl
  have heq : order a a = .eq := Std.ReflCmp.compare_self
  rw [order_eq_lt_iff.mpr h] at heq
  cases heq

/-! ## What is not read yet -/

/-- The characters of a text from an offset on. -/
def Remains (source : String) (cursor : Nat) (rest : List Char) : Prop :=
  ∃ passed, source.toList = passed ++ rest ∧ Text.byteLength passed = cursor

theorem remains_start (source : String) : Remains source 0 source.toList := ⟨[], rfl, rfl⟩

namespace Remains

theorem valid (h : Remains source cursor rest) : String.Pos.Raw.IsValid source ⟨cursor⟩ := by
  obtain ⟨passed, hsource, hcursor⟩ := h
  exact Text.isValid_iff_exists_cut.mpr ⟨passed, rest, hsource, hcursor⟩

theorem bytes_append (h : Remains source cursor (kept ++ after)) :
    kept.utf8Encode = source.toByteArray.extract cursor (cursor + Text.byteLength kept) := by
  obtain ⟨passed, hsource, rfl⟩ := h
  have hbytes : source.toByteArray = passed.utf8Encode ++ (kept.utf8Encode ++ after.utf8Encode) := by
    rw [← List.utf8Encode_append, ← List.utf8Encode_append, ← hsource, ← String.toByteArray_ofList,
      String.ofList_toList]
  have hextract := @ByteArray.extract_append_size_add passed.utf8Encode
    (kept.utf8Encode ++ after.utf8Encode) 0 kept.utf8Encode.size
  rw [Nat.add_zero, ByteArray.extract_append_eq_left rfl, ← hbytes] at hextract
  rw [← Text.size_utf8Encode, ← Text.size_utf8Encode, hextract]

theorem bytes (h : Remains source cursor rest) :
    rest.utf8Encode = source.toByteArray.extract cursor source.toByteArray.size := by
  have hsize : source.toByteArray.size = cursor + Text.byteLength rest := by
    obtain ⟨passed, hsource, rfl⟩ := h
    rw [← Text.byteLength_append, ← hsource, ← Text.utf8ByteSize_ofList, String.ofList_toList,
      String.size_toByteArray]
  rw [← List.append_nil rest] at h
  rw [hsize]
  exact h.bytes_append

/-- Reading on to a later offset. -/
theorem of_cut (h : Remains source cursor rest) {n : Nat} (hcut : Text.cut? n rest = some (kept, after)) :
    Remains source (cursor + n) after ∧
      kept.utf8Encode = source.toByteArray.extract cursor (cursor + n) := by
  obtain ⟨rfl, rfl⟩ := Text.cut?_eq_some_iff.mp hcut
  refine ⟨?_, h.bytes_append⟩
  obtain ⟨passed, hsource, rfl⟩ := h
  exact ⟨passed ++ kept, by rw [hsource, List.append_assoc], Text.byteLength_append passed kept⟩

/-- Every later offset that splits no character can be read on to. -/
theorem exists_cut (h : Remains source cursor rest) {offset : Nat} (hle : cursor ≤ offset)
    (hvalid : String.Pos.Raw.IsValid source ⟨offset⟩) :
    ∃ kept after, Text.cut? (offset - cursor) rest = some (kept, after) := by
  obtain ⟨passed, hsource, rfl⟩ := h
  obtain ⟨before, after, hsource', rfl⟩ := Text.isValid_iff_exists_cut.mp hvalid
  rcases List.append_eq_append_iff.mp (hsource.symm.trans hsource') with
    ⟨kept, rfl, rfl⟩ | ⟨back, rfl, -⟩
  · rw [Text.byteLength_append, Nat.add_sub_cancel_left]
    exact ⟨kept, after, Text.cut?_append kept after⟩
  · -- the offset is not behind the cursor, so it is the cursor itself
    rw [Nat.sub_eq_zero_of_le (by rw [Text.byteLength_append]; omega)]
    exact ⟨[], rest, Text.cut?_append [] rest⟩

end Remains

/-! ## One edit -/

/-- An edit that fits and does not begin before the cursor is taken. -/
theorem take?_of_fits (h : Remains source cursor rest) (hle : cursor ≤ e.position)
    (hfits : e.Fits source) : ∃ kept after, e.take? cursor rest = some (kept, after, e.stop) := by
  obtain ⟨kept, span, hkept⟩ := h.exists_cut hle hfits.start_valid
  have hspan : Remains source e.position span := by
    have := (h.of_cut hkept).1
    rwa [Nat.add_sub_cancel' hle] at this
  obtain ⟨removed, after, hremoved⟩ := hspan.exists_cut (Nat.le_add_right _ _) hfits.stop_valid
  rw [Nat.add_sub_cancel_left] at hremoved
  have hstop : e.stop? = some e.stop := if_pos hfits.word
  refine ⟨kept, after, ?_⟩
  rw [take?, if_neg (Nat.not_lt.mpr hle), hstop]
  simp only [Option.bind_some, hkept, hremoved, Option.map_some]

/-- An edit that is taken fits and does not begin before the cursor; what it keeps stands up to its
span, and what it leaves from the end of its span on. -/
theorem take?_eq_some (h : Remains source cursor rest) {next : Nat}
    (htake : e.take? cursor rest = some (kept, after, next)) :
    cursor ≤ e.position ∧ e.Fits source ∧ next = e.stop ∧ Remains source e.stop after ∧
      kept.utf8Encode = source.toByteArray.extract cursor e.position := by
  unfold take? at htake
  split at htake
  next => cases htake
  next hlt =>
    have hle : cursor ≤ e.position := Nat.not_lt.mp hlt
    obtain ⟨_, hstop, hrest⟩ := Option.bind_eq_some_iff.mp htake
    obtain ⟨⟨kept', span⟩, hkept, hrest⟩ := Option.bind_eq_some_iff.mp hrest
    obtain ⟨⟨removed, after'⟩, hremoved, hresult⟩ := Option.map_eq_some_iff.mp hrest
    cases hresult
    obtain ⟨hword, hnext⟩ := Option.ite_none_right_eq_some.mp hstop
    cases hnext
    obtain ⟨hspan, hbytes⟩ := h.of_cut hkept
    rw [Nat.add_sub_cancel' hle] at hspan hbytes
    have hafter : Remains source e.stop after := (hspan.of_cut hremoved).1
    exact ⟨hle, ⟨hword, hspan.valid, hafter.valid⟩, rfl, hafter, hbytes⟩

/-! ## A batch -/

/-- The edits that are taken of a list, from a cursor on: each that fits and does not begin before the
cursor, which then moves to the end of its span. -/
inductive Takes (source : String) : Nat → List Edit → List Edit → Prop
  | nil {cursor : Nat} : Takes source cursor [] []
  | take {cursor : Nat} {e : Edit} {edits taken : List Edit} (reached : cursor ≤ e.position)
      (fits : e.Fits source) (rest : Takes source e.stop edits taken) :
      Takes source cursor (e :: edits) (e :: taken)
  | pass {cursor : Nat} {e : Edit} {edits taken : List Edit}
      (refused : ¬ (cursor ≤ e.position ∧ e.Fits source)) (rest : Takes source cursor edits taken) :
      Takes source cursor (e :: edits) taken

/-- Bytes from a cursor on, with the spans of edits replaced by their texts. -/
def patched (bytes : ByteArray) (cursor : Nat) : List Edit → ByteArray
  | [] => bytes.extract cursor bytes.size
  | e :: edits => bytes.extract cursor e.position ++ e.text.toByteArray ++ patched bytes e.stop edits

theorem splice_takes (h : Remains source cursor rest) (edits : List Edit) :
    ∃ taken, Takes source cursor edits taken ∧ (splice cursor rest edits).2 = taken.length ∧
      (splice cursor rest edits).1.utf8Encode = patched source.toByteArray cursor taken := by
  induction edits generalizing cursor rest with
  | nil => exact ⟨[], .nil, rfl, h.bytes⟩
  | cons e edits ih =>
      rw [splice]
      split
      next hnone =>
        obtain ⟨taken, htakes, happlied, hbytes⟩ := ih h
        refine ⟨taken, .pass ?_ htakes, happlied, hbytes⟩
        rintro ⟨hle, hfits⟩
        obtain ⟨kept, after, hsome⟩ := take?_of_fits h hle hfits
        rw [hnone] at hsome
        cases hsome
      next kept after next hsome =>
        obtain ⟨hle, hfits, rfl, hafter, hkept⟩ := take?_eq_some h hsome
        obtain ⟨taken, htakes, happlied, hbytes⟩ := ih hafter
        refine ⟨e :: taken, .take hle hfits htakes, ?_, ?_⟩
        · rw [List.length_cons, ← happlied]
        · rw [patched, ← hbytes, ← hkept, List.utf8Encode_append, List.utf8Encode_append,
            ← String.toByteArray_ofList (l := e.text.toList), String.ofList_toList]

namespace Takes

theorem sublist (h : Takes source cursor edits taken) : taken.Sublist edits := by
  induction h with
  | nil => exact List.Sublist.slnil
  | take _ _ _ ih => exact ih.cons_cons _
  | pass _ _ ih => exact ih.cons _

theorem forall_fits (h : Takes source cursor edits taken) : ∀ e ∈ taken, e.Fits source := by
  induction h with
  | nil => exact nofun
  | take _ fits _ ih => exact List.forall_mem_cons.mpr ⟨fits, ih⟩
  | pass _ _ ih => exact ih

theorem forall_reached (h : Takes source cursor edits taken) : ∀ e ∈ taken, cursor ≤ e.position := by
  induction h with
  | nil => exact nofun
  | take reached _ _ ih =>
      refine List.forall_mem_cons.mpr ⟨reached, fun e he => ?_⟩
      have hstop := ih e he
      rw [stop] at hstop
      omega
  | pass _ _ ih => exact ih

theorem apart (h : Takes source cursor edits taken) :
    taken.Pairwise fun a b => a.stop ≤ b.position := by
  induction h with
  | nil => exact List.Pairwise.nil
  | take _ _ rest ih => exact List.pairwise_cons.mpr ⟨rest.forall_reached, ih⟩
  | pass _ _ ih => exact ih

/-- An edit that is left out does not fit, begins before the cursor or inside the span of one that was
taken before it. -/
theorem left_out (h : Takes source cursor edits taken) (hsorted : edits.Pairwise Precedes)
    (he : e ∈ edits) (hout : e ∉ taken) :
    ¬ e.Fits source ∨ e.position < cursor ∨
      ∃ a ∈ taken, a.Precedes e ∧ a.position ≤ e.position ∧ e.position < a.stop := by
  induction h with
  | nil => cases he
  | @take cursor first edits taken _ _ _ ih =>
      obtain ⟨hfirst, hrest⟩ := List.pairwise_cons.mp hsorted
      rw [List.mem_cons, not_or] at hout
      have hmem : e ∈ edits := (List.mem_cons.mp he).resolve_left hout.1
      rcases ih hrest hmem hout.2 with hfits | hbefore | ⟨a, ha, hinside⟩
      · exact .inl hfits
      · have hprecedes := hfirst e hmem
        exact .inr (.inr ⟨first, List.mem_cons_self, hprecedes, hprecedes.position_le, hbefore⟩)
      · exact .inr (.inr ⟨a, List.mem_cons_of_mem _ ha, hinside⟩)
  | @pass cursor first edits taken refused _ ih =>
      rcases List.mem_cons.mp he with rfl | hmem
      · rcases Nat.lt_or_ge e.position cursor with hlt | hge
        · exact .inr (.inl hlt)
        · exact .inl fun hfits => refused ⟨hge, hfits⟩
      · exact ih (List.pairwise_cons.mp hsorted).2 hmem hout

/-- The cursor is left at an offset of the text. -/
theorem ending (h : Takes source cursor edits taken) :
    String.Pos.Raw.IsValid source ⟨(taken.getLast?.map stop).getD 0⟩ := by
  cases hlast : taken.getLast? with
  | none => exact (remains_start source).valid
  | some e => exact (h.forall_fits e (List.mem_of_getLast? hlast)).stop_valid

end Takes

/-- A text is committed by taking some of the edits: they are given ones, each once, in order, with spans
of the text that are apart; their spans are replaced by their texts and all other bytes kept; and what is
not taken has no span of the text or begins inside the span of an edit that was taken before it. -/
structure Splices (source : String) (edits taken : List Edit) (committed : Committed) : Prop where
  given : taken ⊆ edits
  nodup : taken.Nodup
  sorted : taken.Pairwise Precedes
  fits : ∀ e ∈ taken, e.Fits source
  apart : taken.Pairwise fun a b => a.stop ≤ b.position
  applied : committed.applied = taken.length
  bytes : committed.text.toByteArray = patched source.toByteArray 0 taken
  utf8 : (patched source.toByteArray 0 taken).IsValidUTF8
  ending : String.Pos.Raw.IsValid source ⟨(taken.getLast?.map stop).getD 0⟩
  left_out : ∀ e ∈ edits, e ∉ taken → ¬ e.Fits source ∨
    ∃ a ∈ taken, a.Precedes e ∧ a.position ≤ e.position ∧ e.position < a.stop

/-- **Committing a batch is greedy splicing.** For every text and every list of edits, whatever their
numbers. -/
theorem commit_splices (source : String) (edits : List Edit) :
    ∃ taken, Splices source edits taken (commit source edits) := by
  obtain ⟨taken, htakes, happlied, hbytes⟩ :=
    splice_takes (remains_start source) (Ordered.ofList order edits)
  have hsorted : taken.Pairwise Precedes := (pairwise_ordered edits).sublist htakes.sublist
  have htext : (commit source edits).text.toByteArray = patched source.toByteArray 0 taken := by
    rw [← hbytes]
    exact String.toByteArray_ofList
  refine ⟨taken, ?_, hsorted.imp Precedes.ne, hsorted, htakes.forall_fits, htakes.apart, happlied,
    htext, htext ▸ (commit source edits).text.isValidUTF8, htakes.ending, ?_⟩
  · exact fun e he => mem_ordered.mp (htakes.sublist.mem he)
  · intro e he hout
    rcases htakes.left_out (pairwise_ordered edits) (mem_ordered.mpr he) hout with
      hfits | hbefore | hinside
    · exact .inl hfits
    · exact absurd hbefore (Nat.not_lt_zero _)
    · exact .inr hinside

-- the third edit begins inside the first one, and the fourth one splits a character
example : commit "one é" [⟨0, 3, "two"⟩, ⟨3, 0, ","⟩, ⟨1, 1, "x"⟩, ⟨5, 1, "e"⟩] = ⟨"two, é", 2⟩ := by
  decide +kernel

end CodeSweep.Edit
