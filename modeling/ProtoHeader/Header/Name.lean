import ProtoHeader.Text.Segments

/-!
# Names in a header

A schema may use names that are reserved in C++; such a name gets an underscore at its end wherever
it is declared or referred to. Dotted names become scopes, and the name of an include guard is made
of ASCII capitals, digits and underscores.
-/

namespace ProtoHeader.Header

/-- The reserved words of C++, alternative operators included. -/
def reservedWords : List String :=
  ["alignas", "alignof", "and", "and_eq", "asm", "auto", "bitand", "bitor", "bool", "break",
   "case", "catch", "char", "char8_t", "char16_t", "char32_t", "class", "compl", "concept",
   "const", "const_cast", "consteval", "constexpr", "constinit", "continue", "co_await",
   "co_return", "co_yield", "decltype", "default", "delete", "do", "double", "dynamic_cast",
   "else", "enum", "explicit", "export", "extern", "false", "float", "for", "friend", "goto",
   "if", "inline", "int", "long", "mutable", "namespace", "new", "noexcept", "not", "not_eq",
   "nullptr", "operator", "or", "or_eq", "private", "protected", "public", "register",
   "reinterpret_cast", "requires", "return", "short", "signed", "sizeof", "static",
   "static_assert", "static_cast", "struct", "switch", "template", "this", "thread_local",
   "throw", "true", "try", "typedef", "typeid", "typename", "union", "unsigned", "using",
   "virtual", "void", "volatile", "wchar_t", "while", "xor", "xor_eq"]

/-- The name with an underscore after it if it is reserved. -/
def safeName (name : String) : String :=
  if name ∈ reservedWords then name ++ "_" else name

theorem getLast?_ne_underscore :
    ∀ word ∈ reservedWords, word.toList.getLast? ≠ some '_' := by
  decide +kernel

theorem safeName_notMem (name : String) : safeName name ∉ reservedWords := by
  by_cases h : name ∈ reservedWords
  · rw [safeName, if_pos h]
    intro mem
    refine getLast?_ne_underscore _ mem ?_
    have underscore : "_".toList = ['_'] := by decide
    rw [String.toList_append, underscore, List.getLast?_concat]
  · rwa [safeName, if_neg h]

def scopedName (dotted : String) : String :=
  "::".intercalate ((Text.segments dotted).map safeName)

/-- The character in a preprocessor symbol: an ASCII letter as a capital, an ASCII digit as it is,
and an underscore for all else. -/
def macroChar (c : Char) : Char :=
  if c.isAlphanum then c.toUpper else '_'

/-- The text as a preprocessor symbol, which does not start with a digit. -/
def macroName (text : String) : String :=
  let cs := text.toList.map macroChar
  match cs with
  | [] => ""
  | c :: _ => String.ofList (if c.isDigit then '_' :: cs else cs)

/-- The header that declares what an imported schema declares. -/
def includePath (path : String) : String :=
  let suffix := ".proto".toList
  let cs := path.toList
  let stem := if suffix.isSuffixOf cs then cs.take (cs.length - suffix.length) else cs
  String.ofList (stem ++ ".h".toList)

end ProtoHeader.Header
