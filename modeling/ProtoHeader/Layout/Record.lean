/-!
# Records

A record places its members one after the other, each at the next multiple of its alignment, and
never reorders them. The record itself is as strictly aligned as its strictest member, and its size
is rounded up to that. All arithmetic is exact.
-/

namespace ProtoHeader

/-- The size and the alignment of a type, in bytes. -/
structure Extent where
  size : Nat
  align : Nat
  deriving DecidableEq, Repr, Inhabited

/-- The alignment that counts: a type is aligned to at least one byte. -/
def Extent.alignment (e : Extent) : Nat :=
  max e.align 1

/-- Where the members of a record stand, with the record's own size and alignment. -/
structure Layout where
  offsets : List Nat
  size : Nat
  align : Nat
  deriving DecidableEq, Repr, Inhabited

def Layout.extent (l : Layout) : Extent :=
  ⟨l.size, l.align⟩

/-- The number moved up by as many bytes of padding as alignment asks for. -/
def roundUp (n align : Nat) : Nat :=
  n + (align - n % align) % align

namespace Record

/-- The offsets of members of which the first may start at `cursor`. -/
def offsetsFrom (cursor : Nat) : List Extent → List Nat
  | [] => []
  | e :: es =>
    let offset := roundUp cursor e.alignment
    offset :: offsetsFrom (offset + e.size) es

def offsets (members : List Extent) : List Nat :=
  offsetsFrom 0 members

def alignment (members : List Extent) : Nat :=
  (members.map (·.alignment)).foldl max 1

def endOf (members : List Extent) : Nat :=
  (List.zipWith (fun offset e => offset + e.size) (offsets members) members).foldl max 0

/-- The layout of a record. A record without members occupies one byte. -/
def layout (members : List Extent) : Layout :=
  if members.isEmpty then ⟨[], 1, 1⟩
  else ⟨offsets members, roundUp (endOf members) (alignment members), alignment members⟩

end Record

theorem Extent.alignment_pos (e : Extent) : 0 < e.alignment := by
  simp only [alignment]
  omega

theorem le_roundUp (n align : Nat) : n ≤ roundUp n align :=
  Nat.le_add_right _ _

theorem dvd_roundUp {align : Nat} (h : 0 < align) (n : Nat) : align ∣ roundUp n align := by
  have split : align * (n / align) + n % align = n := Nat.div_add_mod n align
  have small : n % align < align := Nat.mod_lt n h
  by_cases zero : n % align = 0
  · rw [roundUp, zero, Nat.sub_zero, Nat.mod_self, Nat.add_zero]
    exact Nat.dvd_of_mod_eq_zero zero
  · have padding : (align - n % align) % align = align - n % align :=
      Nat.mod_eq_of_lt (by omega)
    refine ⟨n / align + 1, ?_⟩
    rw [roundUp, padding, Nat.mul_add, Nat.mul_one]
    omega

theorem roundUp_lt {align : Nat} (h : 0 < align) (n : Nat) : roundUp n align < n + align :=
  Nat.add_lt_add_left (Nat.mod_lt _ h) n

theorem Record.length_offsetsFrom (cursor : Nat) (members : List Extent) :
    (offsetsFrom cursor members).length = members.length := by
  induction members generalizing cursor with
  | nil => rfl
  | cons e es ih => simp [offsetsFrom, ih]

end ProtoHeader
