import Mathlib.Data.Int.Notation
import Mathlib.Data.Nat.Notation
import ProtoHeader.Compile

/-!
# Source trees

The declarations of a schema file as a tree, how they are written down statement by statement, and
the schema that they declare.  Between any two statements there may be any blanks, line breaks
included; the number of the line on which a statement stands follows from these.
-/

namespace ProtoHeader.SourceTree

open Text

/-! ## Trees -/

/-- An ASCII identifier. -/
structure Ident where
  start : Char
  rest : List Char
  start_ok : isNameStart start = true
  rest_ok : ∀ c ∈ rest, inRanges asciiWordRanges c = true

/-- Identifiers with dots between them. -/
structure Dotted where
  first : Ident
  rest : List Ident

/-- A reference to a type. -/
structure Reference where
  absolute : Bool
  name : Dotted

def Ident.chars (n : Ident) : List Char :=
  n.start :: n.rest

def Dotted.chars (d : Dotted) : List Char :=
  ['.'].intercalate ((d.first :: d.rest).map Ident.chars)

def Reference.chars (r : Reference) : List Char :=
  if r.absolute then '.' :: r.name.chars else r.name.chars

structure FieldItem where
  label : Option Grammar.Label
  type : Reference
  name : Ident
  tag : ℕ
  tag_pos : 0 < tag
  tag_lt : tag < 0x100000000

/-- A field directly in the body of a message.  Without a label its type is not spelled like the
keyword of a declaration. -/
structure BodyField extends FieldItem where
  no_keyword : label = none → ∀ kind : DeclKind, type.chars ≠ kind.keyword.toList

structure ValueItem where
  name : Ident
  value : ℤ
  le_value : -0x80000000 ≤ value
  value_lt : value < 0x80000000

structure EnumItem where
  name : Ident
  values : List ValueItem

/-- What may stand in the body of a message. -/
inductive Item where
  | field (f : BodyField)
  | oneof (group : Ident) (fields : List FieldItem)
  | message (name : Ident) (items : List Item)
  | enum (e : EnumItem)

/-- What may stand at the top level. -/
inductive Decl where
  | message (name : Ident) (items : List Item)
  | enum (e : EnumItem)

def Decl.item : Decl → Item
  | .message name items => .message name items
  | .enum e => .enum e

structure File where
  package : Dotted
  decls : List Decl

/-! ## Statements -/

def FieldItem.labelChars (f : FieldItem) : List Char :=
  match f.label with
  | none => []
  | some label => label.word.toList ++ [' ']

/-- What follows the label of a field. -/
def FieldItem.body (f : FieldItem) : List Char :=
  f.type.chars ++ ' ' :: (f.name.chars ++ ' ' :: '=' :: ' ' :: (Nat.toDigits 10 f.tag ++ [';']))

def FieldItem.statement (f : FieldItem) : List Char :=
  f.labelChars ++ f.body

def ValueItem.digits (v : ValueItem) : List Char :=
  if v.value < 0 then '-' :: Nat.toDigits 10 v.value.natAbs else Nat.toDigits 10 v.value.natAbs

def ValueItem.statement (v : ValueItem) : List Char :=
  v.name.chars ++ ' ' :: '=' :: ' ' :: (v.digits ++ [';'])

/-- The statement that opens a declaration. -/
def heading (kind : DeclKind) (name : Ident) : List Char :=
  kind.keyword.toList ++ ' ' :: (name.chars ++ [' ', '{'])

def EnumItem.statements (e : EnumItem) : List (List Char) :=
  heading .enum e.name :: (e.values.map ValueItem.statement ++ [['}']])

mutual

def Item.statements : Item → List (List Char)
  | .field f => [f.statement]
  | .oneof group fields => heading .oneof group :: (fields.map FieldItem.statement ++ [['}']])
  | .message name items => heading .message name :: (statementsOf items ++ [['}']])
  | .enum e => e.statements

def statementsOf : List Item → List (List Char)
  | [] => []
  | item :: items => item.statements ++ statementsOf items

end

def syntaxStatement : List Char :=
  "syntax = \"proto3\";".toList

def packageStatement (package : Dotted) : List Char :=
  "package".toList ++ ' ' :: (package.chars ++ [';'])

def File.statements (f : File) : List (List Char) :=
  syntaxStatement :: packageStatement f.package :: statementsOf (f.decls.map Decl.item)

/-! ## Declared schemas

Throughout, `line i` is the number of the line on which statement `i` stands, and `k` the index of
the first statement. -/

def Ident.string (n : Ident) : String :=
  String.ofList n.chars

def FieldItem.field (f : FieldItem) (line : ℕ) : Field where
  typeName := String.ofList f.type.chars
  name := f.name.string
  tag := f.tag
  line := line
  isScalar := (Scalar.ofName? (String.ofList f.type.chars)).isSome
  isRepeated := f.label == some .repeated
  oneof := none
  targetType := none

def enumeratorsOf (line : ℕ → ℕ) (k : ℕ) (values : List ValueItem) : List Enumerator :=
  (values.zipIdx k).map fun (v, i) ↦ ⟨v.name.string, v.value, line i⟩

def EnumItem.declared (line : ℕ → ℕ) (k : ℕ) (e : EnumItem) : EnumDecl :=
  ⟨e.name.string, line k, enumeratorsOf line (k + 1) e.values⟩

def choicesOf (line : ℕ → ℕ) (k : ℕ) (group : Ident) (fields : List FieldItem) : List Field :=
  (fields.zipIdx k).map fun (f, i) ↦ { f.field (line i) with oneof := some group.string }

def Item.fields (line : ℕ → ℕ) (k : ℕ) : Item → List Field
  | .field f => [f.field (line k)]
  | .oneof group fields => choicesOf line (k + 1) group fields
  | .message _ _ => []
  | .enum _ => []

def Item.enums (line : ℕ → ℕ) (k : ℕ) : Item → List EnumDecl
  | .enum e => [e.declared line k]
  | _ => []

def fieldsOf (line : ℕ → ℕ) (k : ℕ) : List Item → List Field
  | [] => []
  | item :: items => item.fields line k ++ fieldsOf line (k + item.statements.length) items

def enumsOf (line : ℕ → ℕ) (k : ℕ) : List Item → List EnumDecl
  | [] => []
  | item :: items => item.enums line k ++ enumsOf line (k + item.statements.length) items

mutual

def Item.messages (line : ℕ → ℕ) (k : ℕ) : Item → List Message
  | .message name items =>
    [⟨name.string, line k, fieldsOf line (k + 1) items, messagesOf line (k + 1) items,
      enumsOf line (k + 1) items⟩]
  | _ => []

def messagesOf (line : ℕ → ℕ) (k : ℕ) : List Item → List Message
  | [] => []
  | item :: items => item.messages line k ++ messagesOf line (k + item.statements.length) items

end

def File.schema (f : File) (line : ℕ → ℕ) : Schema where
  syntaxVersion := "proto3"
  package := String.ofList f.package.chars
  imports := []
  messages := messagesOf line 2 (f.decls.map Decl.item)
  enums := enumsOf line 2 (f.decls.map Decl.item)

/-! ## Texts -/

/-- The blanks in front of a statement. -/
structure Gap where
  chars : List Char
  blank : ∀ c ∈ chars, isBlank c = true

def Gap.breaks (g : Gap) : ℕ :=
  g.chars.count '\n'

/-- The statements from index `k` on, each after its gap, and one gap at the end. -/
def layOut (gap : ℕ → Gap) (k : ℕ) : List (List Char) → List Char
  | [] => (gap k).chars
  | statement :: rest => (gap k).chars ++ (statement ++ layOut gap (k + 1) rest)

/-- The number of the line on which a statement stands. -/
def lineOf (gap : ℕ → Gap) : ℕ → ℕ
  | 0 => 1 + (gap 0).breaks
  | k + 1 => lineOf gap k + (gap (k + 1)).breaks

def File.print (f : File) (gap : ℕ → Gap) : String :=
  String.ofList (layOut gap 0 f.statements)

end ProtoHeader.SourceTree
