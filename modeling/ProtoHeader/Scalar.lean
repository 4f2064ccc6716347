/-!
# Scalar types

The fifteen type names that the schema language reserves. A field of any other type refers to a
message or an enumeration.
-/

namespace ProtoHeader

inductive Scalar where
  | double | float
  | int32 | int64 | uint32 | uint64
  | sint32 | sint64 | fixed32 | fixed64
  | sfixed32 | sfixed64 | bool | string | bytes
  deriving DecidableEq, Repr, Inhabited

namespace Scalar

/-- Every scalar type, in the order in which the language lists them. -/
def all : List Scalar :=
  [double, float, int32, int64, uint32, uint64, sint32, sint64, fixed32, fixed64,
   sfixed32, sfixed64, bool, string, bytes]

/-- The name by which a schema refers to the type. -/
def name : Scalar → String
  | double => "double"
  | float => "float"
  | int32 => "int32"
  | int64 => "int64"
  | uint32 => "uint32"
  | uint64 => "uint64"
  | sint32 => "sint32"
  | sint64 => "sint64"
  | fixed32 => "fixed32"
  | fixed64 => "fixed64"
  | sfixed32 => "sfixed32"
  | sfixed64 => "sfixed64"
  | bool => "bool"
  | string => "string"
  | bytes => "bytes"

def ofName? (name : String) : Option Scalar :=
  all.find? (·.name == name)

/-- The width in memory of a numeric type. The variants of an integer type differ only in how
they are transmitted. -/
def bits? : Scalar → Option Nat
  | bool => some 8
  | float | int32 | uint32 | sint32 | fixed32 | sfixed32 => some 32
  | double | int64 | uint64 | sint64 | fixed64 | sfixed64 => some 64
  | string | bytes => none

theorem ofName?_name (t : Scalar) : ofName? t.name = some t := by
  cases t <;> decide

theorem ofName?_eq_some_iff {name : String} {t : Scalar} :
    ofName? name = some t ↔ t.name = name := by
  constructor
  · intro h
    simpa using List.find?_some h
  · rintro rfl
    exact ofName?_name t

end Scalar

end ProtoHeader
