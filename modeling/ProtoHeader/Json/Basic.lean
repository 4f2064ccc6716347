import ProtoHeader.Text.Quoted

/-!
# JSON

The values that a dump is made of, and their text: two spaces of indentation for each level, one
element or member on a line, and nothing between the brackets of an empty list or object. Members
keep their order.
-/

namespace ProtoHeader

inductive Json where
  | string (s : String)
  | number (n : Int)
  | bool (b : Bool)
  | array (elements : List Json)
  | object (members : List (String × Json))
  deriving Repr, Inhabited

namespace Json

open Text

def newline (depth : Nat) : String :=
  String.ofList ('\n' :: List.replicate (2 * depth) ' ')

/-- Texts between brackets, each on a line of its own one level below `depth`. -/
def enclose (opening closing : String) (depth : Nat) (items : List String) : String :=
  if items.isEmpty then opening ++ closing
  else
    opening ++ newline (depth + 1) ++ ("," ++ newline (depth + 1)).intercalate items ++
      newline depth ++ closing

mutual

/-- The text of a value at the given depth. -/
def pretty (depth : Nat) : Json → String
  | .string s => quote s
  | .number n => n.repr
  | .bool b => if b then "true" else "false"
  | .array elements => enclose "[" "]" depth (prettyElements (depth + 1) elements)
  | .object members => enclose "\x7b" "\x7d" depth (prettyMembers (depth + 1) members)

def prettyElements (depth : Nat) : List Json → List String
  | [] => []
  | v :: vs => v.pretty depth :: prettyElements depth vs

def prettyMembers (depth : Nat) : List (String × Json) → List String
  | [] => []
  | (key, v) :: rest => (quote key ++ ": " ++ v.pretty depth) :: prettyMembers depth rest

end

end Json

end ProtoHeader
