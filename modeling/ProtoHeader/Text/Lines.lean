/-!
# Lines of a rendered text

A text ends each line with a line feed, before which one carriage return is dropped. A last line
without a line feed counts if it is not empty, and keeps its carriage return.
-/

namespace ProtoHeader.Text

def dropCarriageReturn (cs : List Char) : List Char :=
  if cs.getLast? = some '\r' then cs.dropLast else cs

/-- The lines among the pieces of a text that was split at its line feeds. -/
def linesOfPieces : List (List Char) → List (List Char)
  | [] => []
  | [last] => if last.isEmpty then [] else [last]
  | piece :: pieces => dropCarriageReturn piece :: linesOfPieces pieces

def lines (s : String) : List String :=
  (linesOfPieces (s.toList.splitOn '\n')).map String.ofList

end ProtoHeader.Text
