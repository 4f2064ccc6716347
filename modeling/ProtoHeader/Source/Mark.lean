/-!
# Marks

Reading a schema text character by character removes its comments and tells the characters that
shape it apart from those that do not. A string literal, between double or single quotes, ends at
the same quote or at the end of its line; a backslash in it protects the next character. A comment
runs from two slashes to the end of the line, or from a slash and a star to the next star and
slash. Neither starts inside the other.
-/

namespace ProtoHeader.Source

/-- What surrounds a character of a schema text. -/
inductive Mode where
  | code
  | literal (quote : Char)
  | lineComment
  | blockComment
  deriving DecidableEq, Repr

/-- Only a block comment goes on after the end of a line. -/
def Mode.nextLine : Mode → Mode
  | .blockComment => .blockComment
  | _ => .code

/-- A character of a text without its comments. -/
inductive Mark where
  | plain (c : Char)
  /-- A semicolon or an opening brace outside literals: it ends its statement. -/
  | stop (c : Char)
  /-- A closing brace outside literals: it is a statement of its own. -/
  | close
  | newline
  deriving DecidableEq, Repr

/-- The mark of a character outside literals and comments. -/
def Mark.ofCode (c : Char) : Mark :=
  if c = '}' then .close
  else if c = ';' ∨ c = '{' then .stop c
  else .plain c

/-- A quote opens a literal. -/
def Mode.afterCode (c : Char) : Mode :=
  if c = '"' ∨ c = '\'' then .literal c else .code

/-- The marks of a text that starts inside the given surroundings. -/
def marks (mode : Mode) : List Char → List Mark
  | [] => []
  | c :: cs =>
    if c = '\n' then .newline :: marks mode.nextLine cs
    else match mode with
      | .lineComment => marks .lineComment cs
      | .blockComment =>
        match cs with
        | [] => []
        | d :: ds =>
          if c = '*' ∧ d = '/' then marks .code ds else marks .blockComment (d :: ds)
      | .literal quote =>
        match cs with
        | [] => [.plain c]
        | d :: ds =>
          if c = '\\' ∧ d ≠ '\n' then .plain c :: .plain d :: marks (.literal quote) ds
          else if c = quote then .plain c :: marks .code (d :: ds)
          else .plain c :: marks (.literal quote) (d :: ds)
      | .code =>
        match cs with
        | [] => [.ofCode c]
        | d :: ds =>
          if c = '/' ∧ d = '/' then marks .lineComment ds
          else if c = '/' ∧ d = '*' then marks .blockComment ds
          else .ofCode c :: marks (.afterCode c) (d :: ds)

end ProtoHeader.Source
