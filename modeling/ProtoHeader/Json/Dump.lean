import ProtoHeader.Compile
import ProtoHeader.Json.Basic

/-!
# Dumps

A schema as a JSON value. A choice group or a target type that a field does not have is left out.
-/

namespace ProtoHeader

def Json.natural (n : Nat) : Json :=
  .number n

/-- A member that is there only if it has a value. -/
def Json.optional (key : String) (value : Option String) : List (String × Json) :=
  (value.map fun s => (key, Json.string s)).toList

def Field.toJson (f : Field) : Json :=
  .object <|
    [("type_name", .string f.typeName),
     ("name", .string f.name),
     ("tag", .natural f.tag),
     ("line", .natural f.line),
     ("is_base_type", .bool f.isScalar),
     ("is_repeated", .bool f.isRepeated)] ++
    Json.optional "oneof" f.oneof ++ Json.optional "target_type" f.targetType

def Enumerator.toJson (v : Enumerator) : Json :=
  .object [("name", .string v.name), ("value", .number v.value), ("line", .natural v.line)]

def EnumDecl.toJson (e : EnumDecl) : Json :=
  .object [
    ("name", .string e.name),
    ("line", .natural e.line),
    ("values", .array (e.values.map Enumerator.toJson))]

mutual

def Message.toJson : Message → Json
  | ⟨name, line, fields, messages, enums⟩ =>
    .object [
      ("name", .string name),
      ("line", .natural line),
      ("fields", .array (fields.map Field.toJson)),
      ("nested_messages", .array (toJsonAll messages)),
      ("nested_enums", .array (enums.map EnumDecl.toJson))]

def Message.toJsonAll : List Message → List Json
  | [] => []
  | m :: ms => m.toJson :: toJsonAll ms

end

def Schema.jsonMembers (s : Schema) : List (String × Json) :=
  [("syntax", .string s.syntaxVersion),
   ("package", .string s.package),
   ("imports", .array (s.imports.map .string)),
   ("messages", .array (Message.toJsonAll s.messages)),
   ("enums", .array (s.enums.map EnumDecl.toJson))]

def Schema.toJson (s : Schema) : Json :=
  .object s.jsonMembers

/-- A unit is dumped as its schema, with its schema language in front. -/
def CompilationUnit.toJson : CompilationUnit → Json
  | .protobuf schema =>
    .object (("kind", .string Language.protobuf.name) :: schema.jsonMembers)

def CompilationUnit.dump (u : CompilationUnit) : String :=
  u.toJson.pretty 0 ++ "\n"

end ProtoHeader
