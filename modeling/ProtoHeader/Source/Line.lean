import ProtoHeader.Source.Mark
import ProtoHeader.Text.Blank

/-!
# Lines

A schema is read as a list of logical lines: no comments, no blanks at either end, a closing brace
alone, and nothing after a semicolon or an opening brace. Each line carries the number of the
physical line that it comes from.
-/

namespace ProtoHeader.Source

structure Line where
  text : String
  number : Nat
  deriving DecidableEq, Repr, Inhabited

namespace Line

/-- The first word of the line, empty if it has none. -/
def keyword (l : Line) : String :=
  String.ofList (Text.firstWord l.text.toList)

def closes (l : Line) : Bool :=
  l.text.toList.head? == some '}'

end Line

/-- The line made of the given characters, none if they are all blank. -/
def lineOf? (number : Nat) (cs : List Char) : Option Line :=
  let text := Text.trim cs
  if text.isEmpty then none else some ⟨String.ofList text, number⟩

/-- The lines of a marked text, in which `pending` are the characters already read of the current
line, last one first. -/
def linesOf (number : Nat) (pending : List Char) : List Mark → List Line
  | [] => (lineOf? number pending.reverse).toList
  | .plain c :: rest => linesOf number (c :: pending) rest
  | .stop c :: rest => (lineOf? number (c :: pending).reverse).toList ++ linesOf number [] rest
  | .close :: rest =>
    (lineOf? number pending.reverse).toList ++
      ⟨String.ofList ['}'], number⟩ :: linesOf number [] rest
  | .newline :: rest => (lineOf? number pending.reverse).toList ++ linesOf (number + 1) [] rest

/-- The logical lines of a schema text, numbered from one. -/
def normalize (text : String) : List Line :=
  linesOf 1 [] (marks .code text.toList)

end ProtoHeader.Source
