import ProtoHeader.Layout.Storage

/-!
# Layouts of messages

A message is laid out as the record of its fields. A message cannot contain itself by value: where
a field refers to a message that is being laid out, it is sized as a pointer.
-/

namespace ProtoHeader.Schema

mutual

/-- The layout of the message at `p`, found inside `enclosing`, while those of `visiting` are being
laid out, and whether it depends on these. -/
def plainLayout (s : Schema) (model : DataModel) (visiting enclosing : List Position)
    (p : Position) : Layout × Bool :=
  let members := (s.fieldsAt p).map fun f =>
    s.plainMember model (p :: visiting) (p :: enclosing) f
  (Record.layout (members.map (·.1)), members.any (·.2))
termination_by ((s.unvisited (p :: visiting)).length, 1)

/-- What a field that stands in the given scopes takes up, while the messages of `visiting` are
being laid out, and whether that depends on these. -/
def plainMember (s : Schema) (model : DataModel) (visiting scopes : List Position) (f : Field) :
    Extent × Bool :=
  match h : s.storage model scopes f with
  | .fixed extent => (extent, false)
  | .embedded enclosing q =>
    if hq : q ∈ visiting then (model.pointer, true)
    else
      have := length_unvisited_cons_lt (mem_positions_of_storage h) hq
      let inner := s.plainLayout model visiting enclosing q
      (inner.1.extent, inner.2)
termination_by ((s.unvisited visiting).length, 0)

end

end ProtoHeader.Schema
