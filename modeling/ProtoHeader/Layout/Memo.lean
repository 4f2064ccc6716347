import ProtoHeader.Layout.Storage

/-!
# Remembered layouts

Laying out a message once is enough: its layout is remembered under its position, unless it
depends on which messages were being laid out around it.
-/

namespace ProtoHeader

abbrev Memo := List (Position × Layout)

namespace Schema

mutual

/-- The layout of the message at `p`, found inside `enclosing`, while those of `visiting` are being
laid out, and whether it depends on these. What is remembered is not computed again. -/
def memoLayout (s : Schema) (model : DataModel) (visiting enclosing : List Position)
    (p : Position) : StateM Memo (Layout × Bool) := do
  if let some known := (← get).lookup p then
    return (known, false)
  let members ← (s.fieldsAt p).mapM fun f =>
    s.memoMember model (p :: visiting) (p :: enclosing) f
  let layout := Record.layout (members.map (·.1))
  let dependent := members.any (·.2)
  unless dependent do
    modify ((p, layout) :: ·)
  return (layout, dependent)
termination_by ((s.unvisited (p :: visiting)).length, 1)

/-- What a field that stands in the given scopes takes up, while the messages of `visiting` are
being laid out, and whether that depends on these. -/
def memoMember (s : Schema) (model : DataModel) (visiting scopes : List Position) (f : Field) :
    StateM Memo (Extent × Bool) :=
  match h : s.storage model scopes f with
  | .fixed extent => return (extent, false)
  | .embedded enclosing q =>
    if hq : q ∈ visiting then return (model.pointer, true)
    else do
      have := length_unvisited_cons_lt (mem_positions_of_storage h) hq
      let inner ← s.memoLayout model visiting enclosing q
      return (inner.1.extent, inner.2)
termination_by ((s.unvisited visiting).length, 0)

end

/-- The layout of the message at a position that is taken to stand inside `enclosing`. -/
def layoutInside (s : Schema) (model : DataModel) (enclosing : List Position) (p : Position) :
    StateM Memo Layout :=
  return (← s.memoLayout model [] enclosing p).1

def layoutAt (s : Schema) (model : DataModel) (p : Position) : StateM Memo Layout :=
  s.layoutInside model p.ancestors p

end Schema

end ProtoHeader
