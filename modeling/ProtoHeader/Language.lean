import ProtoHeader.Fault
import ProtoHeader.Path

/-!
# Schema languages

The language of a schema file is told by the extension of its path.
-/

namespace ProtoHeader

inductive Language where
  | protobuf
  deriving DecidableEq, Repr

namespace Language

def name : Language → String
  | protobuf => "protobuf"

/-- The schema language of the given name; file extensions count as names. -/
def ofName (name : String) : Except Fault Language :=
  if name = "protobuf" ∨ name = "proto" then .ok protobuf
  else .error (.unknownLanguage name)

def ofPath (path : String) : Except Fault Language :=
  match Path.extension? path with
  | some extension => ofName extension
  | none => .error (.untypedPath path)

end Language

end ProtoHeader
