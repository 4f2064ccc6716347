import ProtoHeader.Schema.Progress

/-!
# Reading a schema

A file must declare the language version `proto3` and a package. Its declarations are read from
the lines after both of these; imports are taken from anywhere.
-/

namespace ProtoHeader

open Source

/-- The index and the value of the first line for which the reader gives a value. -/
def firstReading? {α : Type} (read? : Line → Option α) (lines : List Line) : Option (Nat × α) :=
  lines.zipIdx.findSome? fun (l, i) => (read? l).map (i, ·)

namespace Schema

def lastNumber (lines : List Line) : Nat :=
  (lines.getLast?.map (·.number)).getD 0

/-- The index of the line that declares the supported language version. The first line that
declares any version decides. -/
def findVersion (lines : List Line) : Except Fault Nat :=
  let versionOf? := fun l : Line => (Grammar.version? l.text.toList).map (·, l.number)
  match firstReading? versionOf? lines with
  | none => .error (.missingSyntaxDeclaration (lastNumber lines))
  | some (index, .proto3, _) => .ok index
  | some (_, version, number) => .error (.unsupportedSyntaxVersion version.name number)

/-- The index of the line that declares the package, and the package. -/
def findPackage (lines : List Line) : Except Fault (Nat × String) :=
  match firstReading? (fun l : Line => Grammar.package? l.text.toList) lines with
  | none => .error (.missingPackageDeclaration (lastNumber lines))
  | some found => .ok found

def importsOf (lines : List Line) : List String :=
  lines.filterMap fun l => Grammar.import? l.text.toList

def parse (lines : List Line) : Except Fault Schema := do
  let versionIndex ← findVersion lines
  let (packageIndex, package) ← findPackage lines
  let progress ← Progress.start.steps (lines.drop (max versionIndex packageIndex + 1))
  let closed := progress.closeAll
  return ⟨Grammar.Version.proto3.name, package, importsOf lines, closed.messages, closed.enums⟩

end Schema

end ProtoHeader
