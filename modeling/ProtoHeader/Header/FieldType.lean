import ProtoHeader.Header.Name
import ProtoHeader.Schema.Basic

/-!
# Types of fields in a header

Every field gets the type under which the header declares it. References are only respelled, not
checked against what the schema declares.
-/

namespace ProtoHeader

/-- The type that holds values of a scalar type. The transmitted variants of an integer share it. -/
def Scalar.headerType : Scalar → String
  | .double => "double"
  | .float => "float"
  | .int32 | .sint32 | .sfixed32 => "int32_t"
  | .int64 | .sint64 | .sfixed64 => "int64_t"
  | .uint32 | .fixed32 => "uint32_t"
  | .uint64 | .fixed64 => "uint64_t"
  | .bool => "bool"
  | .string => "std::string"
  | .bytes => "std::vector<uint8_t>"

def Field.elementType (f : Field) : String :=
  match f.scalar? with
  | some t => t.headerType
  | none => Header.scopedName f.typeName

def Field.headerType (f : Field) : String :=
  if f.isRepeated then "std::vector<" ++ f.elementType ++ ">" else f.elementType

/-- The field with its target type filled in, whatever stood there before. -/
def Field.annotate (f : Field) : Field :=
  { f with targetType := some f.headerType }

def Schema.annotate (s : Schema) : Schema :=
  s.mapFields Field.annotate

end ProtoHeader
