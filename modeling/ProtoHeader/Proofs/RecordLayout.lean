import Mathlib.Data.Nat.Notation
import ProtoHeader.Layout.Storage

/-!
# Members of a record

The members of a record stand one after the other at multiples of their alignments, and inside the
record.  Where all alignments are among 1, 4 and 8, the alignment of the record is a multiple of
each of them.
-/

namespace ProtoHeader

namespace Record

variable {members : List Extent} {e : Extent} {cursor i j o o' : ℕ}

/-! ## Offsets -/

theorem le_of_getElem?_offsetsFrom (ho : (offsetsFrom cursor members)[i]? = some o) :
    cursor ≤ o := by
  induction members generalizing cursor i with
  | nil => simp [offsetsFrom] at ho
  | cons e es ih =>
      have hstart := le_roundUp cursor e.alignment
      cases i with
      | zero =>
          obtain rfl : roundUp cursor e.alignment = o := by simpa [offsetsFrom] using ho
          exact hstart
      | succ i =>
          have hrest := ih (by simpa [offsetsFrom] using ho)
          omega

theorem dvd_of_getElem?_offsetsFrom (he : members[i]? = some e)
    (ho : (offsetsFrom cursor members)[i]? = some o) : e.alignment ∣ o := by
  induction members generalizing cursor i with
  | nil => simp at he
  | cons d ds ih =>
      cases i with
      | zero =>
          obtain rfl : d = e := by simpa using he
          obtain rfl : roundUp cursor d.alignment = o := by simpa [offsetsFrom] using ho
          exact dvd_roundUp d.alignment_pos cursor
      | succ i => exact ih (by simpa using he) (by simpa [offsetsFrom] using ho)

/-- A member ends before every later one starts. -/
theorem add_size_le_of_getElem?_offsetsFrom (hij : i < j) (he : members[i]? = some e)
    (ho : (offsetsFrom cursor members)[i]? = some o)
    (ho' : (offsetsFrom cursor members)[j]? = some o') : o + e.size ≤ o' := by
  induction members generalizing cursor i j with
  | nil => simp at he
  | cons d ds ih =>
      cases j with
      | zero => omega
      | succ j =>
          have hlater : (offsetsFrom (roundUp cursor d.alignment + d.size) ds)[j]? = some o' := by
            simpa [offsetsFrom] using ho'
          cases i with
          | zero =>
              obtain rfl : d = e := by simpa using he
              obtain rfl : roundUp cursor d.alignment = o := by simpa [offsetsFrom] using ho
              exact le_of_getElem?_offsetsFrom hlater
          | succ i =>
              exact ih (Nat.lt_of_succ_lt_succ hij) (by simpa using he)
                (by simpa [offsetsFrom] using ho) hlater

/-! ## The record as a whole -/

theorem alignment_le (he : e ∈ members) : e.alignment ≤ alignment members :=
  List.le_max_of_mem (List.mem_cons_of_mem 1 (List.mem_map_of_mem he))

theorem alignment_mem (members : List Extent) :
    alignment members = 1 ∨ ∃ e ∈ members, e.alignment = alignment members := by
  have hmem : alignment members ∈ 1 :: members.map (·.alignment) :=
    List.max_mem (List.cons_ne_nil _ _)
  rcases List.mem_cons.mp hmem with hone | hmem
  · exact .inl hone
  · exact .inr (List.mem_map.mp hmem)

theorem add_size_le_endOf (he : members[i]? = some e) (ho : (offsets members)[i]? = some o) :
    o + e.size ≤ endOf members := by
  refine List.le_max_of_mem (List.mem_cons_of_mem 0 ?_)
  refine List.mem_of_getElem? (i := i) ?_
  rw [List.getElem?_zipWith, ho, he]

@[simp] theorem offsets_layout (members : List Extent) :
    (layout members).offsets = offsets members := by
  cases members <;> rfl

@[simp] theorem align_layout (members : List Extent) :
    (layout members).align = alignment members := by
  cases members <;> rfl

theorem endOf_le_size (members : List Extent) : endOf members ≤ (layout members).size := by
  cases members with
  | nil => decide
  | cons e es => exact le_roundUp _ _

end Record

/-! ## Regular alignments -/

/-- The alignments that occur, each of which divides the larger ones. -/
def Extent.Regular (e : Extent) : Prop :=
  e.align = 1 ∨ e.align = 4 ∨ e.align = 8

namespace Extent.Regular

variable {e d : Extent} {members : List Extent}

theorem alignment_eq (he : e.Regular) : e.alignment = e.align := by
  rcases he with he | he | he <;> simp [alignment, he]

theorem dvd_of_le (he : e.Regular) (hd : d.Regular) (hle : e.align ≤ d.align) :
    e.align ∣ d.align := by
  rcases he with he | he | he <;> rcases hd with hd | hd | hd <;> rw [he, hd] at hle ⊢ <;> omega

theorem layout (h : ∀ e ∈ members, e.Regular) : (Record.layout members).extent.Regular := by
  rw [Regular, Layout.extent, Record.align_layout]
  rcases Record.alignment_mem members with hone | ⟨e, he, heq⟩
  · exact .inl hone
  · rw [← heq, (h e he).alignment_eq]
    exact h e he

theorem align_dvd_layout (h : ∀ e ∈ members, e.Regular) (he : e ∈ members) :
    e.align ∣ (Record.layout members).align := by
  refine (h e he).dvd_of_le (d := (Record.layout members).extent) (layout h) ?_
  have hle := Record.alignment_le he
  rw [(h e he).alignment_eq] at hle
  rwa [Layout.extent, Record.align_layout]

end Extent.Regular

theorem DataModel.regular_scalar (model : DataModel) (t : Scalar) : (model.scalar t).Regular := by
  cases model <;> cases t <;> simp [scalar, Scalar.bits?, string, vector, pointer, Extent.Regular]

theorem DataModel.regular_pointer (model : DataModel) : model.pointer.Regular := by
  cases model <;> simp [pointer, Extent.Regular]

/-- The types whose size does not depend on the schema. -/
theorem Schema.storage_fixed_cases {s : Schema} {model : DataModel} {scopes : List Position}
    {f : Field} {e : Extent} (h : s.storage model scopes f = .fixed e) :
    e = model.vector ∨ (∃ t, e = model.scalar t) ∨ e = model.enumeration ∨ e = model.pointer := by
  unfold storage at h
  split at h
  · exact .inl (Storage.fixed.inj h).symm
  · split at h
    · exact .inr (.inl ⟨_, (Storage.fixed.inj h).symm⟩)
    · split at h
      · exact nomatch h
      · exact .inr (.inr (.inl (Storage.fixed.inj h).symm))
      · exact .inr (.inr (.inr (Storage.fixed.inj h).symm))

theorem Schema.regular_of_storage {s : Schema} {model : DataModel} {scopes : List Position}
    {f : Field} {e : Extent} (h : s.storage model scopes f = .fixed e) : e.Regular := by
  rcases storage_fixed_cases h with rfl | ⟨t, rfl⟩ | rfl | rfl
  · exact model.regular_pointer
  · exact model.regular_scalar t
  · exact .inr (.inl rfl)
  · exact model.regular_pointer

end ProtoHeader
