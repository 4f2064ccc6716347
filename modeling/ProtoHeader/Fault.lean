import ProtoHeader.Text.Quoted
import ProtoHeader.Text.Escaped

/-!
# Faults

The reasons for which a schema is not accepted or a command fails, with their messages.
-/

namespace ProtoHeader

/-- The keyword that opens a declaration. -/
inductive DeclKind where
  | message
  | enum
  | oneof
  deriving DecidableEq, Repr

def DeclKind.keyword : DeclKind → String
  | .message => "message"
  | .enum => "enum"
  | .oneof => "oneof"

inductive Fault where
  /-- The file is written in another version of the language. -/
  | unsupportedSyntaxVersion (version : String) (line : Nat)
  /-- No line up to the given one declares the language version. -/
  | missingSyntaxDeclaration (line : Nat)
  /-- No line up to the given one declares the package. -/
  | missingPackageDeclaration (line : Nat)
  /-- A keyword opens a declaration that has no name. -/
  | malformedDeclaration (kind : DeclKind) (text : String) (line : Nat)
  | malformedEnumValue (name value : String) (line : Nat)
  | malformedFieldTag (field tag : String) (line : Nat)
  | unknownLanguage (name : String)
  /-- A path without an extension does not tell its schema language. -/
  | untypedPath (path : String)
  | inaccessible (path : String)
  deriving DecidableEq, Repr

namespace Fault

open Text

def label : Fault → String
  | unsupportedSyntaxVersion .. => "UnsupportedSyntaxVersion"
  | missingSyntaxDeclaration .. => "MissingSyntaxDeclaration"
  | missingPackageDeclaration .. => "MissingPackageDeclaration"
  | malformedDeclaration .. => "MalformedDeclaration"
  | malformedEnumValue .. => "MalformedEnumValue"
  | malformedFieldTag .. => "MalformedFieldTag"
  | unknownLanguage .. | untypedPath .. => "InvalidCompilationUnit"
  | inaccessible .. => "Io"

def line? : Fault → Option Nat
  | unsupportedSyntaxVersion _ line
  | missingSyntaxDeclaration line
  | missingPackageDeclaration line
  | malformedDeclaration _ _ line
  | malformedEnumValue _ _ line
  | malformedFieldTag _ _ line => some line
  | unknownLanguage _ | untypedPath _ | inaccessible _ => none

/-- Why a file is no unit that can be compiled. -/
def reason : Fault → String
  | unknownLanguage name => "unknown source kind " ++ quote name
  | untypedPath path => "cannot infer source kind of " ++ quote path
  | inaccessible path => "cannot access " ++ quote path
  | _ => ""

def message : Fault → String
  | unsupportedSyntaxVersion version line =>
    "Unsupported syntax version " ++ quote version ++ " at line " ++ line.repr ++
      ": only \"proto3\" is supported"
  | missingSyntaxDeclaration line =>
    "Missing syntax declaration (searched up to line " ++ line.repr ++ ")"
  | missingPackageDeclaration line =>
    "Missing package declaration (searched up to line " ++ line.repr ++ ")"
  | malformedDeclaration kind text line =>
    "Malformed " ++ kind.keyword ++ " declaration at line " ++ line.repr ++ ": " ++ quote text
  | malformedEnumValue name value line =>
    "Value " ++ quote value ++ " of enum value " ++ quote name ++ " at line " ++ line.repr ++
      " is not an integer"
  | malformedFieldTag field tag line =>
    "Tag " ++ quote tag ++ " of field " ++ quote field ++ " at line " ++ line.repr ++
      " is not a positive 32-bit integer"
  | f@(unknownLanguage _) | f@(untypedPath _) => "Invalid compilation unit: " ++ f.reason
  | f@(inaccessible _) => "I/O error: " ++ f.reason

/-- The parts of a fault, each with its name, as they are shown for diagnosis. -/
def parts : Fault → List (String × String)
  | unsupportedSyntaxVersion version line => [("version", escape version), ("line", line.repr)]
  | missingSyntaxDeclaration line => [("line", line.repr)]
  | missingPackageDeclaration line => [("line", line.repr)]
  | malformedDeclaration kind text line =>
    [("keyword", escape kind.keyword), ("text", escape text), ("line", line.repr)]
  | malformedEnumValue name value line =>
    [("name", escape name), ("value", escape value), ("line", line.repr)]
  | malformedFieldTag field tag line =>
    [("field", escape field), ("tag", escape tag), ("line", line.repr)]
  | unknownLanguage _ | untypedPath _ | inaccessible _ => []

/-- The fault with all its parts, for diagnosis. -/
def diagnosis (f : Fault) : String :=
  match f.parts with
  | [] => f.label ++ "(" ++ escape f.reason ++ ")"
  | parts =>
    f.label ++ " \x7b " ++ ", ".intercalate (parts.map fun (name, value) => name ++ ": " ++ value) ++
      " \x7d"

end Fault

theorem exists_of_bind_ok {α β : Type} {x : Except Fault α} {f : α → Except Fault β} {b : β}
    (h : x >>= f = .ok b) : ∃ a, x = .ok a ∧ f a = .ok b := by
  cases x with
  | error fault => cases h
  | ok a => exact ⟨a, rfl, h⟩

end ProtoHeader
