import ProtoHeader.Header.Build
import ProtoHeader.Header.Render
import ProtoHeader.Schema.Parse
import ProtoHeader.Language

/-!
# Compilation

From the text of a schema to the text of its header.
-/

namespace ProtoHeader

open Source

inductive CompilationUnit where
  | protobuf (schema : Schema)
  deriving Repr

def Schema.ofText (text : String) : Except Fault Schema :=
  Schema.parse (normalize text)

/-- The schema that a text declares, with the target types of its fields. -/
def compileSchema (text : String) : Except Fault Schema := do
  return (← Schema.ofText text).annotate

def compileUnit (text : String) : Language → Except Fault CompilationUnit
  | .protobuf => do return .protobuf (← compileSchema text)

/-- The header text of a schema. Fields without a target type get theirs on the way. -/
def Schema.headerText (s : Schema) (options : Header.Options) : String :=
  (s.header options).render

def CompilationUnit.headerText (u : CompilationUnit) (options : Header.Options) : String :=
  match u with
  | .protobuf schema => schema.headerText options

def compileHeader (text : String) (options : Header.Options) : Except Fault String := do
  return (← compileUnit text .protobuf).headerText options

end ProtoHeader
