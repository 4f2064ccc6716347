import ProtoHeader.Header.Basic
import ProtoHeader.Writer

/-!
# Rendering a header

A header is written as C++ text. Nested declarations are rendered first and embedded line by line.
Names and types are written as they are given.
-/

namespace ProtoHeader

open Writer

def EnumClass.program (e : EnumClass) : List Op :=
  [.block ("enum class " ++ e.name ++ " \x7b") "\x7d;"
    (e.values.map fun v => .line (v.name ++ " = " ++ v.value.repr ++ ","))]

def EnumClass.render (e : EnumClass) : String :=
  write defaultUnit e.program

namespace Header

/-- A part of a class with its own access specifier, after an empty line. -/
def accessPart (access : String) (body : List Op) : List Op :=
  [.blank, .line (access ++ ":"), .indent] ++ body ++ [.dedent]

/-- Texts one after the other with an empty line between them. -/
def fragments (texts : List String) : List Op :=
  [Op.blank].intercalate (texts.map fun text => [Op.fragment text])

def accessors (f : Member) : List Op :=
  [.line ("[[nodiscard]] const " ++ f.typeName ++ "& get_" ++ f.name ++ "() const;"),
   .line ("void set_" ++ f.name ++ "(" ++ f.typeName ++ " value);")]

def offsetTable (offsets : List Nat) : String :=
  "static constexpr std::array<std::size_t, " ++ offsets.length.repr ++ "> kFieldOffsets\x7b" ++
    ", ".intercalate (offsets.map Nat.repr) ++ "\x7d;"

def classProgram (name : String) (nested : List String) (fields : List Member)
    (offsets : List Nat) : List Op :=
  [.line ("class " ++ name ++ " \x7b"), .line "public:", .indent,
   .line (name ++ "() = default;"), .line ("~" ++ name ++ "() = default;"), .dedent] ++
  (if nested.isEmpty then [] else accessPart "public" (fragments nested)) ++
  accessPart "public" [.line "void parseFromStream(std::vector<uint8_t>& stream);"] ++
  (if fields.isEmpty then []
   else
    accessPart "public" ([Op.blank].intercalate (fields.map accessors)) ++
    accessPart "private" (fields.map fun f => .line (f.typeName ++ " " ++ f.name ++ ";"))) ++
  accessPart "private" [.line (offsetTable offsets)] ++
  [.line "\x7d;"]

end Header

mutual

def ClassDecl.render : ClassDecl → String
  | ⟨name, enums, classes, fields, offsets, _, _⟩ =>
    write defaultUnit
      (Header.classProgram name (enums.map EnumClass.render ++ renderAll classes) fields offsets)

def ClassDecl.renderAll : List ClassDecl → List String
  | [] => []
  | c :: cs => c.render :: renderAll cs

end

namespace Header

def standardIncludes : List String :=
  ["array", "cstddef", "cstdint", "string", "vector"]

def program (h : Header) : List Op :=
  [.line ("// Generated by bproto from package `" ++ h.package ++ "`. Do not edit."),
   .line ("// Field offsets assume the " ++ h.model.name ++ " data model."),
   .line ("#ifndef " ++ h.guard),
   .line ("#define " ++ h.guard),
   .blank] ++
  standardIncludes.map (fun name => .line ("#include <" ++ name ++ ">")) ++
  h.includes.map (fun path => .line ("#include \"" ++ path ++ "\"")) ++
  [.blank, .line ("namespace " ++ h.scope ++ " \x7b")] ++
  (h.enums.map EnumClass.render ++ ClassDecl.renderAll h.classes).flatMap
    (fun text => [.blank, .fragment text]) ++
  [.blank, .line ("\x7d  // namespace " ++ h.scope),
   .blank, .line ("#endif  // " ++ h.guard)]

def render (h : Header) : String :=
  write defaultUnit h.program

end Header

end ProtoHeader
