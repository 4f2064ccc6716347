import ProtoHeader.Text.Graphic

/-!
# Escaped text

A text shown for diagnosis, between double quotes: graphic characters stand for themselves, quotes
and backslashes are escaped, four controls have a short form, and every other character is written
by its code point in braces.
-/

namespace ProtoHeader.Text

/-- The code point of a character in hexadecimal, between braces. -/
def codePointEscape (c : Char) : List Char :=
  ['\\', 'u', '{'] ++ Nat.toDigits 16 c.toNat ++ ['}']

def escapedChar (c : Char) : List Char :=
  match c with
  | '\x00' => ['\\', '0']
  | '\t' => ['\\', 't']
  | '\r' => ['\\', 'r']
  | '\n' => ['\\', 'n']
  | '\\' => ['\\', '\\']
  | '"' => ['\\', '"']
  | _ => if isGraphic c then [c] else codePointEscape c

/-- The text between double quotes with every character in its shown form. -/
def escape (s : String) : String :=
  String.ofList ('"' :: s.toList.flatMap escapedChar ++ ['"'])

end ProtoHeader.Text
