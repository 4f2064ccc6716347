/-!
# Quoted text

The JSON string literal of a text: quotes and backslashes are escaped, five control characters
have a short form, the other characters below the space are written by their code in four
hexadecimal digits, and everything else stands for itself.
-/

namespace ProtoHeader.Text

def quotedChar (c : Char) : List Char :=
  match c with
  | '"' => ['\\', '"']
  | '\\' => ['\\', '\\']
  | '\x08' => ['\\', 'b']
  | '\t' => ['\\', 't']
  | '\n' => ['\\', 'n']
  | '\x0c' => ['\\', 'f']
  | '\r' => ['\\', 'r']
  | _ =>
    if c.toNat < 0x20 then
      ['\\', 'u', '0', '0', Nat.digitChar (c.toNat / 16), Nat.digitChar (c.toNat % 16)]
    else [c]

def quotedChars (cs : List Char) : List Char :=
  '"' :: cs.flatMap quotedChar ++ ['"']

def quote (s : String) : String :=
  String.ofList (quotedChars s.toList)

end ProtoHeader.Text
