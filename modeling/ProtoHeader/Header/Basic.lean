import ProtoHeader.Layout.DataModel

/-!
# Headers

What a generated header declares, before it is rendered as text.
-/

namespace ProtoHeader

structure EnumConstant where
  name : String
  value : Int
  deriving DecidableEq, Repr, Inhabited

structure EnumClass where
  name : String
  values : List EnumConstant
  deriving DecidableEq, Repr, Inhabited

structure Member where
  name : String
  typeName : String
  deriving DecidableEq, Repr, Inhabited

structure ClassDecl where
  name : String
  enums : List EnumClass
  classes : List ClassDecl
  fields : List Member
  offsets : List Nat
  size : Nat
  align : Nat
  deriving Repr, Inhabited

structure Header where
  guard : String
  package : String
  /-- The scope that all declarations stand in. -/
  scope : String
  includes : List String
  model : DataModel
  enums : List EnumClass
  classes : List ClassDecl
  deriving Repr, Inhabited

end ProtoHeader
