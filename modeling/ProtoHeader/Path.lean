/-!
# Paths

The parts of a path stand between slashes; empty parts and single dots at its end do not count. The
extension of a file name starts after its last dot, unless the name starts there.
-/

namespace ProtoHeader.Path

/-- The last part of a path, unless the path ends at a directory. -/
def fileName? (path : String) : Option (List Char) :=
  let parts := path.toList.splitOn '/'
  let named := parts.reverse.dropWhile fun part => part == [] || part == ['.']
  named.head?.filter (· != ['.', '.'])

/-- A file name cut at its last dot. A dot at the start does not cut. -/
def cut? (name : List Char) : Option (List Char × List Char) :=
  let extension := name.reverse.takeWhile (· != '.')
  match name.reverse.dropWhile (· != '.') with
  | [] => none
  | _ :: stem => if stem.isEmpty then none else some (stem.reverse, extension.reverse)

def extension? (path : String) : Option String := do
  let (_, extension) ← cut? (← fileName? path)
  return String.ofList extension

def stem? (path : String) : Option String := do
  let name ← fileName? path
  return String.ofList (((cut? name).map (·.1)).getD name)

end ProtoHeader.Path
