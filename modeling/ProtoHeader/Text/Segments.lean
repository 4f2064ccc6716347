/-!
# Segments of a dotted name

A dotted name is cut at every dot, so that a name has one more segment than it has dots and
segments may be empty.
-/

namespace ProtoHeader.Text

def segments (s : String) : List String :=
  (s.toList.splitOn '.').map String.ofList

def dropLeadingDots (s : String) : String :=
  String.ofList (s.toList.dropWhile (· == '.'))

end ProtoHeader.Text
