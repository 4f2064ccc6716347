import ProtoHeader.Layout.DataModel
import ProtoHeader.Schema.Resolve

/-!
# Storage of fields

How a field is stored in its message: a repeated field as a growing array, a scalar or an
enumeration as itself, a reference that names nothing as a pointer, and a message by value.
-/

namespace ProtoHeader

inductive Storage where
  /-- A type whose size does not depend on the schema. -/
  | fixed (extent : Extent)
  /-- The message at a position, found inside the given scopes, stored by value. -/
  | embedded (enclosing : List Position) (position : Position)
  deriving DecidableEq, Repr

namespace Schema

/-- How a field that stands in the given scopes is stored. -/
def storage (s : Schema) (model : DataModel) (scopes : List Position) (f : Field) : Storage :=
  if f.isRepeated then .fixed model.vector
  else match f.scalar? with
    | some t => .fixed (model.scalar t)
    | none =>
      match s.resolve? scopes f.typeName with
      | some (.message enclosing position) => .embedded enclosing position
      | some .enum => .fixed model.enumeration
      | none => .fixed model.pointer

theorem mem_positions_of_storage {s : Schema} {model : DataModel} {scopes enclosing : List Position}
    {f : Field} {position : Position}
    (h : s.storage model scopes f = .embedded enclosing position) : position ∈ s.positions := by
  unfold storage at h
  split at h
  · exact nomatch h
  · split at h
    · exact nomatch h
    · split at h
      · next hr =>
        obtain ⟨rfl, rfl⟩ := Storage.embedded.inj h
        exact mem_positions_of_resolve? hr
      · exact nomatch h
      · exact nomatch h

def unvisited (s : Schema) (visiting : List Position) : List Position :=
  s.positions.filter (· ∉ visiting)

/-- Entering a message that is not being laid out leaves fewer of them. -/
theorem length_unvisited_cons_lt {s : Schema} {visiting : List Position} {p : Position}
    (mem : p ∈ s.positions) (fresh : p ∉ visiting) :
    (s.unvisited (p :: visiting)).length < (s.unvisited visiting).length := by
  have smaller : s.unvisited (p :: visiting) = (s.unvisited visiting).filter (· ≠ p) := by
    simp only [unvisited, List.filter_filter]
    congr 1
    funext q
    by_cases h : q = p <;> simp [h]
  rw [smaller]
  refine List.length_filter_lt_length_iff_exists.2 ⟨p, ?_, by simp⟩
  simp [unvisited, mem, fresh]

end Schema

end ProtoHeader
