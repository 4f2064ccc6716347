import Mathlib.Order.Bounds.Basic
import ProtoHeader.Proofs.ValidLayouts

/-!
# The tightest packing in order

Rounding up gives the least multiple that is large enough.  So every member of a record stands at
the first place after the one before it that its alignment allows, whatever the sizes and the
alignments are, and the record ends at the first place after its last member that its own
alignment allows.
-/

namespace ProtoHeader

theorem isLeast_roundUp {align : ℕ} (h : 0 < align) (n : ℕ) :
    IsLeast {m | align ∣ m ∧ n ≤ m} (roundUp n align) := by
  refine ⟨⟨dvd_roundUp h n, le_roundUp n align⟩, ?_⟩
  rintro m ⟨hdvd, hle⟩
  by_contra hlt
  -- two multiples that are less than one alignment apart are the same
  have hclose := roundUp_lt h n
  have hgap : align ∣ roundUp n align - m := Nat.dvd_sub (dvd_roundUp h n) hdvd
  have hzero := Nat.eq_zero_of_dvd_of_lt hgap (by omega)
  omega

namespace Record

variable {members : List Extent} {e e' : Extent} {cursor i o o' : ℕ}

/-- A member starts at the least multiple of its alignment at or after the end of the one before. -/
theorem isLeast_offsetsFrom_succ (he : members[i]? = some e)
    (ho : (offsetsFrom cursor members)[i]? = some o) (he' : members[i + 1]? = some e')
    (ho' : (offsetsFrom cursor members)[i + 1]? = some o') :
    IsLeast {n | e'.alignment ∣ n ∧ o + e.size ≤ n} o' := by
  induction members generalizing cursor i with
  | nil => simp at he
  | cons d ds ih =>
      have hlater : (offsetsFrom (roundUp cursor d.alignment + d.size) ds)[i]? = some o' := by
        simpa [offsetsFrom] using ho'
      cases i with
      | zero =>
          obtain rfl : d = e := by simpa using he
          obtain rfl : roundUp cursor d.alignment = o := by simpa [offsetsFrom] using ho
          cases ds with
          | nil => simp at he'
          | cons c cs =>
              obtain rfl : c = e' := by simpa using he'
              obtain rfl : roundUp (roundUp cursor d.alignment + d.size) c.alignment = o' := by
                simpa [offsetsFrom] using hlater
              exact isLeast_roundUp c.alignment_pos _
      | succ i =>
          exact ih (by simpa using he) (by simpa [offsetsFrom] using ho) (by simpa using he')
            hlater

theorem isGreatest_alignment (h : members ≠ []) :
    IsGreatest {a | ∃ e ∈ members, a = e.alignment} (alignment members) := by
  refine ⟨?_, ?_⟩
  · rcases alignment_mem members with hone | ⟨e, he, heq⟩
    · obtain ⟨e, he⟩ := List.exists_mem_of_ne_nil members h
      have hle := alignment_le he
      have hpos := e.alignment_pos
      exact ⟨e, he, by omega⟩
    · exact ⟨e, he, heq.symm⟩
  · rintro a ⟨e, he, rfl⟩
    exact alignment_le he

theorem endOf_le {bound : ℕ}
    (h : ∀ (i : ℕ) (e : Extent) (o : ℕ), members[i]? = some e → (offsets members)[i]? = some o →
      o + e.size ≤ bound) : endOf members ≤ bound := by
  have hmem : endOf members ∈
      0 :: List.zipWith (fun offset e ↦ offset + e.size) (offsets members) members :=
    List.max_mem (List.cons_ne_nil _ _)
  rcases List.mem_cons.mp hmem with hzero | hmem
  · exact hzero ▸ Nat.zero_le bound
  · obtain ⟨i, hi⟩ := List.mem_iff_getElem?.mp hmem
    obtain ⟨o, e, ho, he, hend⟩ := List.getElem?_zipWith_eq_some.mp hi
    exact hend ▸ h i e o he ho

end Record

/-- The layout packs the members in order as tightly as their alignments allow. -/
structure Layout.PacksTightly (layout : Layout) (members : List Extent) : Prop where
  length_offsets : layout.offsets.length = members.length
  head_offsets : members ≠ [] → layout.offsets.head? = some 0
  next_offset : ∀ (i : ℕ) (e : Extent) (o : ℕ) (e' : Extent) (o' : ℕ),
    members[i]? = some e → layout.offsets[i]? = some o →
    members[i + 1]? = some e' → layout.offsets[i + 1]? = some o' →
    IsLeast {n | max e'.align 1 ∣ n ∧ o + e.size ≤ n} o'
  align_greatest : members ≠ [] → IsGreatest {a | ∃ e ∈ members, a = max e.align 1} layout.align
  size_least : members ≠ [] → IsLeast {n | layout.align ∣ n ∧
    ∀ (i : ℕ) (e : Extent) (o : ℕ), members[i]? = some e → layout.offsets[i]? = some o →
      o + e.size ≤ n} layout.size
  /-- The last member alone decides where the record ends. -/
  size_least_last : ∀ (e : Extent) (o : ℕ), members.getLast? = some e →
    layout.offsets.getLast? = some o →
    IsLeast {n | layout.align ∣ n ∧ o + e.size ≤ n} layout.size

namespace Record

variable {members : List Extent}

theorem head?_offsets (h : members ≠ []) : (offsets members).head? = some 0 := by
  cases members with
  | nil => exact absurd rfl h
  | cons e es => simp [offsets, offsetsFrom, roundUp]

theorem isLeast_size_layout (h : members ≠ []) :
    IsLeast {n | alignment members ∣ n ∧
      ∀ (i : ℕ) (e : Extent) (o : ℕ), members[i]? = some e → (offsets members)[i]? = some o →
        o + e.size ≤ n} (layout members).size := by
  have hround := isLeast_roundUp (alignment_pos members) (endOf members)
  have hsize : (layout members).size = roundUp (endOf members) (alignment members) := by
    simp [layout, h]
  rw [hsize]
  refine ⟨⟨hround.1.1, ?_⟩, ?_⟩
  · intro i e o he ho
    exact Nat.le_trans (add_size_le_endOf he ho) hround.1.2
  · rintro n ⟨hdvd, hends⟩
    exact hround.2 ⟨hdvd, endOf_le hends⟩

theorem getElem?_offsets_last {last : ℕ} (h : (offsets members).getLast? = some last) :
    (offsets members)[members.length - 1]? = some last := by
  have hlength : (offsets members).length = members.length := length_offsetsFrom 0 members
  rwa [List.getLast?_eq_getElem?, hlength] at h

/-- No member ends after the last one. -/
theorem add_size_le_last {i o last : ℕ} {e d : Extent} (he : members[i]? = some e)
    (ho : (offsets members)[i]? = some o) (hd : members[members.length - 1]? = some d)
    (hlast : (offsets members)[members.length - 1]? = some last) :
    o + e.size ≤ last + d.size := by
  obtain ⟨hi, -⟩ := List.getElem?_eq_some_iff.mp he
  rcases Nat.lt_or_ge i (members.length - 1) with hlt | hge
  · have hbefore := add_size_le_of_getElem?_offsetsFrom hlt he ho hlast
    omega
  · obtain rfl : i = members.length - 1 := by omega
    obtain rfl := Option.some.inj (he.symm.trans hd)
    obtain rfl := Option.some.inj (ho.symm.trans hlast)
    exact Nat.le_refl _

/-- The least size that is large enough for the last member is so for all members. -/
theorem isLeast_size_layout_last {last : ℕ} {d : Extent} (hd : members.getLast? = some d)
    (hlast : (offsets members).getLast? = some last) :
    IsLeast {n | alignment members ∣ n ∧ last + d.size ≤ n} (layout members).size := by
  have hne : members ≠ [] := by
    rintro rfl
    simp at hd
  obtain ⟨⟨hdvd, hends⟩, hleast⟩ := isLeast_size_layout hne
  rw [List.getLast?_eq_getElem?] at hd
  have hlast' := getElem?_offsets_last hlast
  refine ⟨⟨hdvd, hends _ d last hd hlast'⟩, ?_⟩
  rintro n ⟨hn, hle⟩
  refine hleast ⟨hn, fun i e o he ho ↦ ?_⟩
  exact Nat.le_trans (add_size_le_last he ho hd hlast') hle

/-- The offsets are those of the tightest packing of the members in their order, and so are the
size and the alignment.  A record without members takes up one byte. -/
theorem layout_packs_tightly (members : List Extent) :
    (layout members).offsets = offsets members ∧ (layout members).PacksTightly members ∧
      layout [] = ⟨[], 1, 1⟩ := by
  refine ⟨offsets_layout members, ?_, rfl⟩
  constructor
  · rw [offsets_layout]
    exact length_offsetsFrom 0 members
  · intro h
    rw [offsets_layout]
    exact head?_offsets h
  · intro i e o e' o' he ho he' ho'
    rw [offsets_layout] at ho ho'
    exact isLeast_offsetsFrom_succ he ho he' ho'
  · intro h
    rw [align_layout]
    exact isGreatest_alignment h
  · intro h
    rw [align_layout, offsets_layout]
    exact isLeast_size_layout h
  · intro d last hd hlast
    rw [offsets_layout] at hlast
    rw [align_layout]
    exact isLeast_size_layout_last hd hlast

/-- Alignments need not be powers of two, and none at all counts as one byte. -/
example : layout [⟨1, 0⟩, ⟨5, 3⟩, ⟨0, 4⟩, ⟨2, 6⟩] = ⟨[0, 3, 8, 12], 18, 6⟩ := by
  decide

end Record

end ProtoHeader
