import ProtoHeader.Header.Basic
import ProtoHeader.Header.FieldType
import ProtoHeader.Layout.Memo

/-!
# Building a header

Every message of a schema becomes a class with the layout of the message, and every enumeration an
enumeration class, nested as they are in the schema. All layouts share one memo.
-/

namespace ProtoHeader

namespace Header

structure Options where
  /-- The stem of the include guard, by default the package. -/
  guard : Option String
  model : DataModel
  deriving DecidableEq, Repr, Inhabited

def enumClass (e : EnumDecl) : EnumClass :=
  ⟨safeName e.name, e.values.map fun v => ⟨safeName v.name, v.value⟩⟩

/-- The data member of a field. A target type that was filled in before is kept. -/
def member (f : Field) : Member :=
  ⟨safeName f.name, f.targetType.getD f.headerType⟩

mutual

/-- The class of the message `m`, which stands at `p`. -/
def classDecl (s : Schema) (model : DataModel) (p : Position) :
    Message → StateM Memo ClassDecl
  | ⟨name, _, fields, messages, enums⟩ => do
    let layout ← s.layoutAt model p
    let classes ← classDecls s model p 0 messages
    return {
      name := safeName name
      enums := enums.map enumClass
      classes
      fields := fields.map member
      offsets := layout.offsets
      size := layout.size
      align := layout.align }

/-- The classes of messages that stand side by side in the scope at `p`, the first of them at
index `i`. -/
def classDecls (s : Schema) (model : DataModel) (p : Position) (i : Nat) :
    List Message → StateM Memo (List ClassDecl)
  | [] => return []
  | m :: ms => do
    let first ← classDecl s model (p ++ [i]) m
    let rest ← classDecls s model p (i + 1) ms
    return first :: rest

end

def guardName (stem : String) : String :=
  macroName stem ++ "_H"

end Header

def Schema.header (s : Schema) (options : Header.Options) : Header where
  guard := Header.guardName (options.guard.getD s.package)
  package := s.package
  scope := Header.scopedName s.package
  includes := s.imports.map Header.includePath
  model := options.model
  enums := s.enums.map Header.enumClass
  classes := ((Header.classDecls s options.model [] 0 s.messages).run []).1

end ProtoHeader
