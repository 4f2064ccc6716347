import ProtoHeader.Scalar

/-!
# Schemas

A schema file declares messages and enumerations. Messages hold fields and may hold further
messages and enumerations. Every declaration remembers the number of the line it stands on.
-/

namespace ProtoHeader

structure Field where
  /-- The type exactly as the schema writes it. -/
  typeName : String
  name : String
  tag : Nat
  line : Nat
  /-- The written type is taken for a scalar, not for a reference. -/
  isScalar : Bool
  isRepeated : Bool
  /-- The choice group that the field was declared in. -/
  oneof : Option String
  /-- The type under which generated code declares the field, once it is known. -/
  targetType : Option String
  deriving DecidableEq, Repr, Inhabited

namespace Field

/-- A field as it is declared: in no choice group, and without a target type. -/
def declare (typeName name : String) (tag : Nat) (isRepeated : Bool) (line : Nat) : Field where
  typeName := typeName
  name := name
  tag := tag
  line := line
  isScalar := (Scalar.ofName? typeName).isSome
  isRepeated := isRepeated
  oneof := none
  targetType := none

/-- The scalar type of a field that is taken for a scalar. -/
def scalar? (f : Field) : Option Scalar :=
  if f.isScalar then Scalar.ofName? f.typeName else none

/-- The target type where it is known, otherwise the declared type. -/
def resolvedType (f : Field) : String :=
  f.targetType.getD f.typeName

end Field

structure Enumerator where
  name : String
  value : Int
  line : Nat
  deriving DecidableEq, Repr, Inhabited

structure EnumDecl where
  name : String
  line : Nat
  values : List Enumerator
  deriving DecidableEq, Repr, Inhabited

structure Message where
  name : String
  line : Nat
  fields : List Field
  messages : List Message
  enums : List EnumDecl
  deriving Repr, Inhabited

structure Schema where
  syntaxVersion : String
  package : String
  imports : List String
  messages : List Message
  enums : List EnumDecl
  deriving Repr, Inhabited

namespace Message

def message? (m : Message) (name : String) : Option Message :=
  m.messages.find? (·.name == name)

def enum? (m : Message) (name : String) : Option EnumDecl :=
  m.enums.find? (·.name == name)

mutual

/-- The message and all messages inside it, each before those that it holds. -/
def family : Message → List Message
  | m@⟨_, _, _, messages, _⟩ => m :: families messages

def families : List Message → List Message
  | [] => []
  | m :: ms => m.family ++ families ms

end

mutual

/-- The message with every field of it and of the messages inside it replaced. -/
def mapFields (f : Field → Field) : Message → Message
  | ⟨name, line, fields, messages, enums⟩ =>
    ⟨name, line, fields.map f, mapFieldsAll f messages, enums⟩

def mapFieldsAll (f : Field → Field) : List Message → List Message
  | [] => []
  | m :: ms => m.mapFields f :: mapFieldsAll f ms

end

end Message

namespace Schema

def message? (s : Schema) (name : String) : Option Message :=
  s.messages.find? (·.name == name)

def enum? (s : Schema) (name : String) : Option EnumDecl :=
  s.enums.find? (·.name == name)

def allMessages (s : Schema) : List Message :=
  Message.families s.messages

def mapFields (f : Field → Field) (s : Schema) : Schema :=
  { s with messages := Message.mapFieldsAll f s.messages }

end Schema

end ProtoHeader
